import Scriptlet.Paint.Names
import Scriptlet.Proofs.Parts

/-!
# What the painting walk sees

The walk over a program arrives at every expression with the scopes around it. `Stmt.visits` lists
these arrivals for the expressions that stand directly in statements; everything inside such an
expression (`Expr.Part`) is looked at with the same scopes. The list follows the scopes that the
walk itself returns, and the tags of an expression under the scopes of its visit stand in the tags
of the program (`tags_infix_nameTags`).
-/

namespace Scriptlet

/-! ## Tags of parts -/

namespace Expr

/-- The tags of a part stand in the tags of the whole. -/
theorem tags_infix_of_mem_children {frames : Frames} {e x : Expr} (mem : x ∈ e.children) :
    x.tags frames <:+: e.tags frames := by
  have inAll : ∀ es : List Expr, x ∈ es → x.tags frames <:+: Expr.tagsAll frames es := by
    intro es mem
    induction es with
    | nil => cases mem
    | cons first rest ih =>
      rw [tagsAll]
      rcases List.mem_cons.1 mem with rfl | mem
      · exact (List.prefix_append _ _).isInfix
      · exact (ih mem).trans (List.suffix_append _ _).isInfix
  cases e with
  | literal | ident => cases mem
  | group | unary | stepThenTake | takeThenStep =>
    rw [List.mem_singleton.1 mem]
    exact List.infix_rfl
  | array span elements => exact inAll elements mem
  | binary span op left right | logical span op left right | assign span left right
  | index span left right =>
    rw [tags]
    simp only [children, List.mem_cons, List.not_mem_nil, or_false] at mem
    rcases mem with rfl | rfl
    · exact (List.prefix_append _ _).isInfix
    · exact (List.suffix_append _ _).isInfix
  | ternary span condition yes no =>
    rw [tags]
    simp only [children, List.mem_cons, List.not_mem_nil, or_false] at mem
    rcases mem with rfl | rfl | rfl
    · rw [List.append_assoc]
      exact (List.prefix_append _ _).isInfix
    · exact (List.suffix_append _ _).isInfix.trans (List.prefix_append _ _).isInfix
    · exact (List.suffix_append _ _).isInfix
  | field span target name =>
    rw [List.mem_singleton.1 mem, tags]
    exact (List.suffix_cons _ _).isInfix
  | call span callee args =>
    rw [tags]
    rcases List.mem_cons.1 mem with rfl | mem
    · exact (List.suffix_append _ _).isInfix.trans (List.prefix_append _ _).isInfix
    · rw [List.append_assoc, List.append_assoc]
      exact (inAll args mem).trans (List.prefix_append _ _).isInfix

theorem Part.tags_infix {frames : Frames} {root x : Expr} (h : Part root x) :
    x.tags frames <:+: root.tags frames := by
  induction h with
  | self => exact List.infix_rfl
  | inside _ mem ih => exact (tags_infix_of_mem_children mem).trans ih

end Expr

/-! ## Visits -/

/-- An expression where the walk arrives at it. -/
structure Visit where
  expr : Expr
  /-- The scopes around it. -/
  frames : Frames
  /-- The name that the walk has just bound, and whose first value the expression computes. -/
  pending : Option String

mutual

/-- The visits in a statement. -/
def Stmt.visits (frames : Frames) : Stmt → List Visit
  | .declare name value _ =>
    value.toList.map (⟨·, frames.define .variableName name.text, some name.text⟩)
  | .function decl => functionVisits frames decl
  | .classDecl decl => classVisits frames decl
  | .ret _ value => value.toList.map (⟨·, frames, none⟩)
  | .expr e => [⟨e, frames, none⟩]
  | .block body => Stmt.visitsAll frames.enter body
  | .branch condition yes no =>
    ⟨condition, frames, none⟩ :: yes.visits frames ++ Stmt.optionVisits (yes.paint frames).1 no
  | .loop condition body => ⟨condition, frames, none⟩ :: body.visits frames

def Stmt.visitsAll (frames : Frames) : List Stmt → List Visit
  | [] => []
  | s :: rest => s.visits frames ++ Stmt.visitsAll (s.paint frames).1 rest

def Stmt.optionVisits (frames : Frames) : Option Stmt → List Visit
  | none => []
  | some s => s.visits frames

def functionVisits (frames : Frames) : FunctionDecl Stmt → List Visit
  | ⟨name, params, body, isMethod⟩ =>
    let after := if isMethod then frames else frames.define .functionName name.text
    Stmt.visitsAll (after.withParams params) body

def methodsVisits (frames : Frames) : List (FunctionDecl Stmt) → List Visit
  | [] => []
  | decl :: rest => functionVisits frames decl ++ methodsVisits (functionPaint frames decl).1 rest

def constructorVisits (frames : Frames) : Option (FunctionDecl Stmt) → List Visit
  | none => []
  | some decl => functionVisits frames decl

def classVisits (frames : Frames) : ClassDecl Stmt → List Visit
  | ⟨name, superclass, fields, methods, constructor⟩ =>
    let inside := (frames.define .className name.text).withClass superclass
    fields.map (fun field => ⟨field.value, inside, none⟩) ++ methodsVisits inside methods ++
      constructorVisits (methodsPaint inside methods).1 constructor

end

/-- The visits in a program. -/
def programVisits (p : List Stmt) : List Visit := Stmt.visitsAll [Dict.empty] p

/-! ## Visits are the visits of the walk -/

/-- The tags of the expression, under the scopes of the visit, stand in a list of tags. -/
def Visit.TaggedIn (v : Visit) (tags : List Tag) : Prop := v.expr.tags v.frames <:+: tags

theorem Visit.TaggedIn.left {v : Visit} {tags more : List Tag} (h : v.TaggedIn tags) :
    v.TaggedIn (tags ++ more) :=
  List.IsInfix.trans h (List.prefix_append _ _).isInfix

theorem Visit.TaggedIn.right {v : Visit} {tags more : List Tag} (h : v.TaggedIn more) :
    v.TaggedIn (tags ++ more) :=
  List.IsInfix.trans h (List.suffix_append _ _).isInfix

theorem Visit.TaggedIn.cons {v : Visit} {tag : Tag} {tags : List Tag} (h : v.TaggedIn tags) :
    v.TaggedIn (tag :: tags) :=
  List.IsInfix.trans h (List.suffix_cons _ _).isInfix

theorem Visit.taggedIn_self (v : Visit) : v.TaggedIn (v.expr.tags v.frames) := List.infix_rfl

mutual

theorem Stmt.taggedIn_paint (frames : Frames) : ∀ st : Stmt, ∀ v ∈ st.visits frames,
    v.TaggedIn (st.paint frames).2
  | .declare name value constant, v, mem => by
    cases value with
    | none => cases mem
    | some e =>
      rw [List.mem_singleton.1 mem]
      exact (Visit.taggedIn_self _).cons
  | .function decl, v, mem => taggedIn_functionPaint frames decl v mem
  | .classDecl decl, v, mem => taggedIn_classPaint frames decl v mem
  | .ret span value, v, mem => by
    cases value with
    | none => cases mem
    | some e =>
      rw [List.mem_singleton.1 mem]
      exact Visit.taggedIn_self _
  | .expr e, v, mem => by
    rw [List.mem_singleton.1 mem]
    exact Visit.taggedIn_self _
  | .block body, v, mem => Stmt.taggedIn_paintAll frames.enter body v mem
  | .branch condition yes no, v, mem => by
    rw [Stmt.visits] at mem
    rcases List.mem_append.1 mem with mem | mem
    · rcases List.mem_cons.1 mem with rfl | mem
      · exact (Visit.taggedIn_self _).left.left
      · exact (Stmt.taggedIn_paint frames yes v mem).right.left
    · exact (Stmt.taggedIn_optionPaint _ no v mem).right
  | .loop condition body, v, mem => by
    rw [Stmt.visits] at mem
    rcases List.mem_cons.1 mem with rfl | mem
    · exact (Visit.taggedIn_self _).left
    · exact (Stmt.taggedIn_paint frames body v mem).right

theorem Stmt.taggedIn_paintAll (frames : Frames) : ∀ body : List Stmt,
    ∀ v ∈ Stmt.visitsAll frames body, v.TaggedIn (Stmt.paintAll frames body).2
  | [], _, mem => by cases mem
  | st :: rest, v, mem => by
    rw [Stmt.visitsAll] at mem
    rcases List.mem_append.1 mem with mem | mem
    · exact (Stmt.taggedIn_paint frames st v mem).left
    · exact (Stmt.taggedIn_paintAll _ rest v mem).right

theorem Stmt.taggedIn_optionPaint (frames : Frames) : ∀ no : Option Stmt,
    ∀ v ∈ Stmt.optionVisits frames no, v.TaggedIn (Stmt.optionPaint frames no).2
  | none, _, mem => by cases mem
  | some st, v, mem => Stmt.taggedIn_paint frames st v mem

theorem taggedIn_functionPaint (frames : Frames) : ∀ decl : FunctionDecl Stmt,
    ∀ v ∈ functionVisits frames decl, v.TaggedIn (functionPaint frames decl).2
  | ⟨_, _, body, _⟩, v, mem => (Stmt.taggedIn_paintAll _ body v mem).right

theorem taggedIn_methodsPaint (frames : Frames) : ∀ decls : List (FunctionDecl Stmt),
    ∀ v ∈ methodsVisits frames decls, v.TaggedIn (methodsPaint frames decls).2
  | [], _, mem => by cases mem
  | decl :: rest, v, mem => by
    rw [methodsVisits] at mem
    rcases List.mem_append.1 mem with mem | mem
    · exact (taggedIn_functionPaint frames decl v mem).left
    · exact (taggedIn_methodsPaint _ rest v mem).right

theorem taggedIn_constructorPaint (frames : Frames) : ∀ decl : Option (FunctionDecl Stmt),
    ∀ v ∈ constructorVisits frames decl, v.TaggedIn (constructorPaint frames decl)
  | none, _, mem => by cases mem
  | some decl, v, mem => (taggedIn_functionPaint frames decl v mem).left

theorem taggedIn_classPaint (frames : Frames) : ∀ decl : ClassDecl Stmt,
    ∀ v ∈ classVisits frames decl, v.TaggedIn (classPaint frames decl).2
  | ⟨name, superclass, fields, methods, constructor⟩, v, mem => by
    rw [classVisits] at mem
    rcases List.mem_append.1 mem with mem | mem
    · rcases List.mem_append.1 mem with mem | mem
      · obtain ⟨field, declared, rfl⟩ := List.mem_map.1 mem
        let inside := (frames.define .className name.text).withClass superclass
        have inField : Visit.TaggedIn ⟨field.value, inside, none⟩ (field.tags inside) :=
          (Visit.taggedIn_self ⟨field.value, inside, none⟩).cons
        have inFields := inField.trans (List.infix_of_mem_flatten (List.mem_map_of_mem declared))
        exact Visit.TaggedIn.left (Visit.TaggedIn.left (Visit.TaggedIn.left
          (Visit.TaggedIn.cons inFields)))
      · exact (taggedIn_methodsPaint _ methods v mem).right.left.left
    · exact (taggedIn_constructorPaint _ constructor v mem).right.left

end

/-- The tags of everything inside the expression of a visit are among the tags of the program. -/
theorem tags_infix_nameTags {p : List Stmt} {v : Visit} {e : Expr} (mem : v ∈ programVisits p)
    (part : v.expr.Part e) : e.tags v.frames <:+: nameTags p :=
  part.tags_infix.trans (Stmt.taggedIn_paintAll [Dict.empty] p v mem)

end Scriptlet
