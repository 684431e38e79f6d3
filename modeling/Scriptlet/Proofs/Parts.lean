import Scriptlet.Tree

/-!
# Parts of trees

What is directly inside an expression (`Expr.children`), what is inside it at any depth
(`Expr.Part`), and induction along the first of these. For statements the same, and the expressions
that stand directly in them (`Stmt.exprs`).
-/

namespace Scriptlet
namespace Expr

/-- The expressions directly inside an expression. -/
def children : Expr → List Expr
  | literal .. | ident _ => []
  | group _ inner => [inner]
  | array _ elements => elements
  | unary _ _ operand | stepThenTake _ _ operand | takeThenStep _ _ operand => [operand]
  | binary _ _ left right | logical _ _ left right => [left, right]
  | ternary _ condition yes no => [condition, yes, no]
  | assign _ target value => [target, value]
  | index _ target position => [target, position]
  | field _ target _ => [target]
  | call _ callee args => callee :: args

/-- An expression inside an expression, or the expression itself. -/
inductive Part (root : Expr) : Expr → Prop
  | self : Part root root
  | inside {e x : Expr} : Part root e → x ∈ e.children → Part root x

theorem Part.of_child {root child x : Expr} (mem : child ∈ root.children) (h : Part child x) :
    Part root x := by
  induction h with
  | self => exact .inside .self mem
  | inside _ inner ih => exact .inside ih inner

/-- A part is the whole expression or a part of something directly inside it. -/
theorem part_iff {root x : Expr} :
    Part root x ↔ x = root ∨ ∃ child ∈ root.children, Part child x := by
  constructor
  · intro h
    induction h with
    | self => exact .inl rfl
    | @inside e x _ mem ih =>
      rcases ih with rfl | ⟨child, inner, part⟩
      · exact .inr ⟨x, mem, .self⟩
      · exact .inr ⟨child, inner, .inside part mem⟩
  · rintro (rfl | ⟨child, mem, part⟩)
    · exact .self
    · exact part.of_child mem

theorem sizeOf_lt_of_mem_children {e c : Expr} (mem : c ∈ e.children) : sizeOf c < sizeOf e := by
  cases e with
  | literal | ident => cases mem
  | array span elements =>
    have inside : sizeOf c < sizeOf elements := List.sizeOf_lt_of_mem mem
    rw [array.sizeOf_spec]
    omega
  | call span callee args =>
    rw [call.sizeOf_spec]
    rcases List.mem_cons.1 mem with rfl | mem
    · omega
    · have inside := List.sizeOf_lt_of_mem mem
      omega
  | _ =>
    simp only [children, List.mem_cons, List.not_mem_nil, or_false] at mem
    grind

/-- Induction over what is directly inside an expression. -/
@[elab_as_elim]
theorem children_induction {motive : Expr → Prop}
    (step : ∀ e, (∀ c ∈ e.children, motive c) → motive e) (e : Expr) : motive e :=
  step e fun c mem =>
    have := sizeOf_lt_of_mem_children mem
    children_induction step c
termination_by sizeOf e

end Expr

/-- The functions in a class: its constructor and its methods. -/
def ClassDecl.functions {σ : Type} (decl : ClassDecl σ) : List (FunctionDecl σ) :=
  decl.constructor.toList ++ decl.methods

namespace Stmt

/-- The statements directly inside a statement. -/
def children : Stmt → List Stmt
  | declare .. | ret .. | expr _ => []
  | function decl => decl.body
  | classDecl decl => decl.functions.flatMap (·.body)
  | block body => body
  | branch _ yes no => yes :: no.toList
  | loop _ body => [body]

/-- The expressions that stand in a statement, outside the statements inside it. -/
def exprs : Stmt → List Expr
  | declare _ value _ | ret _ value => value.toList
  | function _ | block _ => []
  | classDecl decl => decl.fields.map (·.value)
  | expr e => [e]
  | branch condition _ _ | loop condition _ => [condition]

/-- A statement inside a statement, or the statement itself. -/
inductive Part (root : Stmt) : Stmt → Prop
  | self : Part root root
  | inside {st x : Stmt} : Part root st → x ∈ st.children → Part root x

end Stmt
end Scriptlet
