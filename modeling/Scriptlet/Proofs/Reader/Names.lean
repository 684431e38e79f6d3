import Scriptlet.Proofs.Reader.Pieces

/-!
# Names come from identifiers

Every name in a tree that was read is that of an identifier among the tokens, whatever problems were
recorded on the way (`namesFrom_ofTokens`). For expressions this is a fact about the tokens they are
written with, and for statements about the pieces they are made of.
-/

namespace Scriptlet

/-! ## The names in a tree -/

mutual

/-- The names in an expression. -/
def Expr.names : Expr → List Name
  | .literal .. => []
  | .ident name => [name]
  | .group _ inner => inner.names
  | .array _ elements => Expr.namesAll elements
  | .unary _ _ operand | .stepThenTake _ _ operand | .takeThenStep _ _ operand => operand.names
  | .binary _ _ left right | .logical _ _ left right => left.names ++ right.names
  | .ternary _ condition yes no => condition.names ++ yes.names ++ no.names
  | .assign _ target value => target.names ++ value.names
  | .index _ target position => target.names ++ position.names
  | .field _ target name => name :: target.names
  | .call _ callee args => callee.names ++ Expr.namesAll args

def Expr.namesAll : List Expr → List Name
  | [] => []
  | e :: rest => e.names ++ Expr.namesAll rest

end

/-- The names in an expression that may be missing. -/
def Expr.optionNames : Option Expr → List Name
  | some e => e.names
  | none => []

def FieldDecl.names (f : FieldDecl) : List Name := f.name :: f.value.names

mutual

/-- The names in a statement. -/
def Stmt.names : Stmt → List Name
  | .declare name value _ => name :: Expr.optionNames value
  | .function decl => functionNames decl
  | .classDecl decl => classNames decl
  | .ret _ value => Expr.optionNames value
  | .expr e => e.names
  | .block body => Stmt.namesAll body
  | .branch condition yes no => condition.names ++ yes.names ++ Stmt.optionNames no
  | .loop condition body => condition.names ++ body.names

def Stmt.namesAll : List Stmt → List Name
  | [] => []
  | s :: rest => s.names ++ Stmt.namesAll rest

def Stmt.optionNames : Option Stmt → List Name
  | none => []
  | some s => s.names

/-- The names in a function, its own among them. -/
def functionNames : FunctionDecl Stmt → List Name
  | ⟨name, params, body, _⟩ => name :: params ++ Stmt.namesAll body

def methodsNames : List (FunctionDecl Stmt) → List Name
  | [] => []
  | decl :: rest => functionNames decl ++ methodsNames rest

def constructorNames : Option (FunctionDecl Stmt) → List Name
  | none => []
  | some decl => functionNames decl

/-- The names in a class, its own and that of the superclass among them. -/
def classNames : ClassDecl Stmt → List Name
  | ⟨name, superclass, fields, methods, constructor⟩ =>
    name :: fields.flatMap FieldDecl.names ++ methodsNames methods ++
      constructorNames constructor ++ superclass.toList

end

theorem name_mem_functionNames (decl : FunctionDecl Stmt) : decl.name ∈ functionNames decl := by
  cases decl
  exact List.mem_cons_self

/-- The names in a member of a class. -/
def Member.names : Member → List Name
  | field decl => decl.names
  | method decl => functionNames decl

/-! ## The names of tokens -/

/-- The names are those of the identifiers among the tokens. -/
def NamesOf (names : List Name) (tokens : List Token) : Prop :=
  ∀ name, name ∈ names ↔ name.From tokens

namespace NamesOf

variable {names more : List Name} {ts us : List Token} {t : Token}

theorem nil : NamesOf [] [] := fun name => by simp [Name.From]

theorem same (h : NamesOf names ts) (iff : ∀ name, name ∈ more ↔ name ∈ names) :
    NamesOf more ts :=
  fun name => (iff name).trans (h name)

/-- A token that is no identifier adds no name. -/
theorem other (kind : t.kind ≠ .identifier) (h : NamesOf names ts) : NamesOf names (t :: ts) := by
  intro name
  rw [h name]
  simp [Name.From, kind]

theorem token {kind : TokenKind} (here : t.kind = kind) (h : NamesOf names ts)
    (no : kind ≠ .identifier := by decide) : NamesOf names (t :: ts) :=
  other (here ▸ no) h

theorem name (kind : t.kind = .identifier) (h : NamesOf names ts) :
    NamesOf (t.name :: names) (t :: ts) := by
  intro name
  rw [List.mem_cons, h name]
  simp [Name.From, kind, eq_comm]

theorem append (h : NamesOf names ts) (h' : NamesOf more us) :
    NamesOf (names ++ more) (ts ++ us) := by
  intro name
  rw [List.mem_append, h name, h' name]
  simp only [Name.From, List.mem_append, or_and_right, exists_or]

/-- More tokens without names at the end. -/
theorem before (h : NamesOf names ts) (h' : NamesOf [] us) : NamesOf names (ts ++ us) :=
  List.append_nil names ▸ h.append h'

/-- One token more at the end that is no identifier. -/
theorem closed {kind : TokenKind} (h : NamesOf names ts) (here : t.kind = kind)
    (no : kind ≠ .identifier := by decide) : NamesOf names (ts ++ [t]) :=
  h.before (token here nil no)

end NamesOf

/-! ## Expressions -/

/-- The names in a phrase. -/
def Phrase.names : Phrase → List Name
  | expr _ e => e.names
  | elements es _ | arguments es _ | someArguments es _ => Expr.namesAll es

/-- The names of a phrase are those of its tokens. -/
theorem Phrase.Yields.namesOf {p : Phrase} {ts : List Token} (h : p.Yields ts) :
    NamesOf p.names ts := by
  induction h with
  | literal kind => rcases kind with kind | kind <;> exact .token kind .nil
  | keyword value => exact .other (ofToken_ne rfl value) .nil
  | array opened _ ih => exact .token opened ih
  | group opened _ closed ih => exact .token opened (ih.closed closed)
  | name named => exact .name named .nil
  | field _ dot named ih =>
    exact (ih.append (.token dot (.name named .nil))).same fun name => by
      simp [names, Expr.names, or_comm]
  | index _ opened _ closed ihTarget ih => exact ihTarget.append (.token opened (ih.closed closed))
  | call _ opened _ ihCallee ih => exact ihCallee.append (.token opened ih)
  | assign _ equal _ ihTarget ih => exact ihTarget.append (.token equal ih)
  | compound _ op _ ihTarget ih =>
    -- the target stands in the tree twice
    exact (ihTarget.append (.other (ofToken_ne rfl op) ih)).same fun name => by
      simp [names, Expr.assigned, Expr.names]
  | stepAfter _ op ih => exact ih.before (.other (ofToken_ne rfl op) .nil)
  | stepBefore op _ ih | sign op _ ih => exact .other (ofToken_ne rfl op) ih
  | @infixed _ _ _ op _ _ _ found _ ihLeft ihRight =>
    refine (ihLeft.append (.other (ofToken_ne rfl found) ihRight)).same fun name => ?_
    cases op <;> rfl
  | choice _ question _ colon _ ihCondition ihYes ihNo =>
    refine (ihCondition.append (.token question (ihYes.append (.token colon ihNo)))).same
      fun name => ?_
    simp [names, Expr.names]
  | above _ ih | arguments _ ih => exact ih
  | noElement closed | noArgument closed => exact .token closed .nil
  | element _ _ ih ihRest => exact ih.append ihRest
  | elementComma _ comma _ ih ihRest | argument _ comma _ ih ihRest =>
    exact ih.append (.token comma ihRest)
  | lastArgument _ closed ih =>
    exact (ih.closed closed).same fun name => by simp [names, Expr.namesAll]

section
variable {tokens ts : List Token} {first more : List Name}

theorem NamesFrom.append (h : NamesFrom tokens first) (h' : NamesFrom tokens more) :
    NamesFrom tokens (first ++ more) :=
  List.forall_mem_append.2 ⟨h, h'⟩

/-- The names of a phrase come from all tokens among which its own are. -/
theorem Phrase.Yields.namesFrom {p : Phrase} (h : p.Yields ts) (sub : ∀ t ∈ ts, t ∈ tokens) :
    NamesFrom tokens p.names := by
  intro name mem
  obtain ⟨t, inside, named⟩ := (h.namesOf name).1 mem
  exact ⟨t, sub t inside, named⟩

theorem Expr.DrawnFrom.names {e : Expr} (h : e.DrawnFrom tokens) : NamesFrom tokens e.names := by
  obtain ⟨ts, stretch, yields⟩ := h
  exact yields.namesFrom fun _ mem => stretch.subset mem

/-! ## Statements -/

theorem namesFrom_option {value : Option Expr} (h : ∀ e ∈ value, Expr.DrawnFrom tokens e) :
    NamesFrom tokens (Expr.optionNames value) := by
  cases value with
  | none => exact namesFrom_nil
  | some e => exact (h e rfl).names

theorem namesFrom_namesAll {body : List Stmt} (h : ∀ st ∈ body, NamesFrom tokens st.names) :
    NamesFrom tokens (Stmt.namesAll body) := by
  induction body with
  | nil => exact namesFrom_nil
  | cons st rest ih =>
    obtain ⟨own, others⟩ := List.forall_mem_cons.1 h
    exact own.append (ih others)

theorem namesFrom_function {decl : FunctionDecl Stmt} (named : decl.NamedFrom tokens)
    (h : ∀ st ∈ decl.body, NamesFrom tokens st.names) : NamesFrom tokens (functionNames decl) := by
  have all := (named.1.cons named.2).append (namesFrom_namesAll h)
  cases decl
  exact all

theorem namesFrom_methods {decls : List (FunctionDecl Stmt)}
    (h : ∀ decl ∈ decls, NamesFrom tokens (functionNames decl)) :
    NamesFrom tokens (methodsNames decls) := by
  induction decls with
  | nil => exact namesFrom_nil
  | cons decl rest ih =>
    obtain ⟨first, others⟩ := List.forall_mem_cons.1 h
    exact first.append (ih others)

/-- The names in a class are its own, that of its superclass, and those of its fields and
functions. -/
theorem namesFrom_class {decl : ClassDecl Stmt} (named : decl.name.From tokens)
    (parent : NamesFrom tokens decl.superclass.toList)
    (fields : ∀ field ∈ decl.fields, field.DrawnFrom tokens)
    (h : ∀ f ∈ decl.functions, NamesFrom tokens (functionNames f)) :
    NamesFrom tokens (classNames decl) := by
  have inFields : NamesFrom tokens (decl.fields.flatMap FieldDecl.names) := by
    intro name mem
    obtain ⟨field, declared, mem⟩ := List.mem_flatMap.1 mem
    obtain ⟨own, value⟩ := fields field declared
    exact (own.cons value.names) name mem
  have inMethods : NamesFrom tokens (methodsNames decl.methods) :=
    namesFrom_methods fun f mem => h f (List.mem_append_right _ mem)
  have inConstructor : NamesFrom tokens (constructorNames decl.constructor) := by
    cases declared : decl.constructor with
    | none => exact namesFrom_nil
    | some f => exact h f (List.mem_append_left _ (by simp [declared]))
  have all := (((named.cons inFields).append inMethods).append inConstructor).append parent
  cases decl
  exact all

/-- The names in a statement come from the tokens its pieces come from. -/
theorem Stmt.DrawnFrom.names {st : Stmt} (h : st.DrawnFrom tokens) :
    NamesFrom tokens st.names := by
  induction h with
  | declare named value => exact named.cons (namesFrom_option value)
  | function named _ ih => exact namesFrom_function named ih
  | classDecl named parent fields functions _ ih =>
    exact namesFrom_class named parent fields fun f mem =>
      namesFrom_function (functions f mem) (ih f mem)
  | ret => exact namesFrom_nil
  | retValue _ value stretch =>
    exact value.namesFrom fun _ mem => stretch.subset (List.mem_cons_of_mem _ mem)
  | expr e => exact e.names
  | block _ ih => exact namesFrom_namesAll ih
  | @branch condition yes no asked _ _ ihYes ihNo =>
    refine (asked.names.append ihYes).append ?_
    cases no with
    | none => exact namesFrom_nil
    | some st => exact ihNo st rfl
  | loop asked _ ih => exact asked.names.append ih

/-- **Every name that was read is that of an identifier among the tokens**, also in a program with
problems. -/
theorem namesFrom_ofTokens (mode : Mode) (tokens : List Token) :
    NamesFrom (Stream.ofTokens tokens).tokens
      (Stmt.namesAll (Program.ofTokens mode tokens).statements) :=
  namesFrom_namesAll fun _ mem => (drawnFrom_ofTokens mem).names

end
end Scriptlet
