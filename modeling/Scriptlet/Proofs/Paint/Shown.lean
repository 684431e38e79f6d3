import Scriptlet.Proofs.Paint.Exact
import Scriptlet.Proofs.Paint.Visits
import Scriptlet.Proofs.Reader.Written

/-!
# Which names are shown

A name in a program is declared, the name of a superclass, stands after a dot, is what a call calls,
or is a plain reference. All but the plain references are shown whatever they are bound to
(`Marked`); a plain reference is shown if the scopes around it bind it. What is known of the tags of
a part of a program is collected in `Accounts`, by one induction over statements.

So in a text without problems an identifier that is not shown is a plain reference that is bound
nowhere, or it did not reach the program at all, as it stands in a constructor that another one of
its class replaces (`names_shown_unless_unbound_or_replaced`).
-/

namespace Scriptlet

/-! ## Names in expressions -/

namespace Expr

theorem mem_namesAll {es : List Expr} {name : Name} :
    name ∈ namesAll es ↔ ∃ e ∈ es, name ∈ e.names := by
  induction es with
  | nil => simp [namesAll]
  | cons e rest ih => simp [namesAll, ih]

theorem mem_tagsAll {frames : Frames} {es : List Expr} {tag : Tag} :
    tag ∈ tagsAll frames es ↔ ∃ e ∈ es, tag ∈ e.tags frames := by
  induction es with
  | nil => simp [tagsAll]
  | cons e rest ih => simp [tagsAll, ih]

/-- A name stands in an expression itself or in something directly inside it. -/
theorem mem_names_iff_children {e : Expr} {name : Name} : name ∈ e.names ↔
    e = .ident name ∨ (∃ span target, e = .field span target name) ∨
      ∃ c ∈ e.children, name ∈ c.names := by
  cases e <;> simp [names, children, mem_namesAll, eq_comm]

/-- The names in an expression are those of its plain references and those after its dots. -/
theorem mem_names_iff {e : Expr} {name : Name} : name ∈ e.names ↔
    e.Part (.ident name) ∨ ∃ span target, e.Part (.field span target name) := by
  induction e using children_induction with
  | step e ih =>
    rw [mem_names_iff_children]
    constructor
    · rintro (rfl | ⟨span, target, rfl⟩ | ⟨c, mem, inside⟩)
      · exact .inl .self
      · exact .inr ⟨span, target, .self⟩
      · exact ((ih c mem).1 inside).imp (·.of_child mem) fun ⟨span, target, part⟩ =>
          ⟨span, target, part.of_child mem⟩
    · rintro (part | ⟨span, target, part⟩)
      · rcases part_iff.1 part with same | ⟨c, mem, part⟩
        · exact .inl same.symm
        · exact .inr (.inr ⟨c, mem, (ih c mem).2 (.inl part)⟩)
      · rcases part_iff.1 part with same | ⟨c, mem, part⟩
        · exact .inr (.inl ⟨span, target, same.symm⟩)
        · exact .inr (.inr ⟨c, mem, (ih c mem).2 (.inr ⟨span, target, part⟩)⟩)

/-- A name that is shown wherever the expression stands: it comes after a dot or is called. -/
inductive Marks (e : Expr) (name : Name) : Prop
  | afterDot {span : Span} {target : Expr} : e.Part (.field span target name) → Marks e name
  | called {span : Span} {args : List Expr} : e.Part (.call span (.ident name) args) → Marks e name

/-- A plain reference to a name that is bound. -/
def Bound (frames : Frames) (e : Expr) (name : Name) : Prop :=
  e.Part (.ident name) ∧ (frames.role? name.text).isSome

variable {frames : Frames} {e c : Expr} {name : Name}

theorem Marks.of_child (mem : c ∈ e.children) (h : c.Marks name) : e.Marks name := by
  cases h with
  | afterDot part => exact .afterDot (part.of_child mem)
  | called part => exact .called (part.of_child mem)

theorem Marks.tagged (h : e.Marks name) (frames : Frames) :
    ∃ tag ∈ e.tags frames, tag.span = name.span := by
  cases h with
  | afterDot part =>
    exact ⟨name.tagged .accessor, part.tags_infix.subset (by simp [tags]), rfl⟩
  | called part =>
    exact ⟨name.tagged .called, part.tags_infix.subset (by simp [tags, calleeTags]), rfl⟩

theorem Bound.tagged (h : e.Bound frames name) : ∃ tag ∈ e.tags frames, tag.span = name.span := by
  obtain ⟨part, bound⟩ := h
  obtain ⟨role, found⟩ := Option.isSome_iff_exists.1 bound
  refine ⟨name.tagged role.highlight, part.tags_infix.subset ?_, rfl⟩
  simp [tags, referenceTags, found]

theorem Marks.mem_names (h : e.Marks name) : name ∈ e.names := by
  cases h with
  | afterDot part => exact mem_names_iff.2 (.inr ⟨_, _, part⟩)
  | called part => exact mem_names_iff.2 (.inl (.inside part List.mem_cons_self))

theorem Bound.mem_names (h : e.Bound frames name) : name ∈ e.names := mem_names_iff.2 (.inl h.1)

theorem marks_or_bound_of_child {tag : Tag} (mem : c ∈ e.children)
    (h : ∃ name, tag.span = name.span ∧ (c.Marks name ∨ c.Bound frames name)) :
    ∃ name, tag.span = name.span ∧ (e.Marks name ∨ e.Bound frames name) := by
  obtain ⟨name, same, marked | bound⟩ := h
  · exact ⟨name, same, .inl (marked.of_child mem)⟩
  · exact ⟨name, same, .inr ⟨bound.1.of_child mem, bound.2⟩⟩

/-- Only such names have tags. -/
theorem marks_or_bound_of_mem_tags {tag : Tag} (mem : tag ∈ e.tags frames) :
    ∃ name, tag.span = name.span ∧ (e.Marks name ∨ e.Bound frames name) := by
  induction e using children_induction with
  | step e ih =>
    have inside (c : Expr) (child : c ∈ e.children) (mem : tag ∈ c.tags frames) :=
      marks_or_bound_of_child child (ih c child mem)
    cases e with
    | literal => cases mem
    | ident name =>
      cases found : frames.role? name.text with
      | none => simp [tags, referenceTags, found] at mem
      | some role =>
        simp only [tags, referenceTags, found, Option.map_some, Option.toList_some,
          List.mem_singleton] at mem
        exact ⟨name, mem ▸ rfl, .inr ⟨.self, by simp [found]⟩⟩
    | field span target name =>
      rcases List.mem_cons.1 mem with rfl | mem
      · exact ⟨name, rfl, .inl (.afterDot .self)⟩
      · exact inside target List.mem_cons_self mem
    | call span callee args =>
      simp only [tags, List.mem_append, mem_tagsAll] at mem
      obtain ((⟨arg, given, mem⟩ | mem) | mem) | mem := mem
      · exact inside arg (List.mem_cons_of_mem _ given) mem
      · cases callee with
        | ident name =>
          rw [List.mem_singleton.1 mem]
          exact ⟨name, rfl, .inl (.called .self)⟩
        | _ => cases mem
      · exact inside callee List.mem_cons_self mem
      · cases callee with
        | field _ target name =>
          rw [List.mem_singleton.1 mem]
          exact ⟨name, rfl, .inl (.afterDot (.inside .self List.mem_cons_self))⟩
        | _ => cases mem
    | array span elements =>
      obtain ⟨c, child, mem⟩ := mem_tagsAll.1 mem
      exact inside c child mem
    | _ =>
      simp only [tags, List.mem_append] at mem
      simp only [children, List.mem_cons, List.not_mem_nil, or_false] at inside
      grind

end Expr

/-! ## Names in statements -/

mutual

/-- The names that a statement declares, and those of superclasses. -/
def Stmt.declared : Stmt → List Name
  | .declare name _ _ => [name]
  | .function decl => functionDeclared decl
  | .classDecl decl => classDeclared decl
  | .ret .. | .expr _ => []
  | .block body => Stmt.declaredAll body
  | .branch _ yes no => yes.declared ++ Stmt.optionDeclared no
  | .loop _ body => body.declared

def Stmt.declaredAll : List Stmt → List Name
  | [] => []
  | s :: rest => s.declared ++ Stmt.declaredAll rest

def Stmt.optionDeclared : Option Stmt → List Name
  | none => []
  | some s => s.declared

/-- A function declares its parameters, too. -/
def functionDeclared : FunctionDecl Stmt → List Name
  | ⟨name, params, body, _⟩ => name :: params ++ Stmt.declaredAll body

def methodsDeclared : List (FunctionDecl Stmt) → List Name
  | [] => []
  | decl :: rest => functionDeclared decl ++ methodsDeclared rest

def constructorDeclared : Option (FunctionDecl Stmt) → List Name
  | none => []
  | some decl => functionDeclared decl

def classDeclared : ClassDecl Stmt → List Name
  | ⟨name, superclass, fields, methods, constructor⟩ =>
    name :: fields.map (·.name) ++ methodsDeclared methods ++ constructorDeclared constructor ++
      superclass.toList

end

/-- The names, the visits and the tags of a part of a program belong together: every name is
declared or stands in an expression that is visited, and so does every tag; and every name that is
declared has a tag. -/
structure Accounts (declared names : List Name) (visits : List Visit) (tags : List Tag) : Prop where
  names : ∀ name, name ∈ names ↔ name ∈ declared ∨ ∃ v ∈ visits, name ∈ v.expr.names
  tagged : ∀ name ∈ declared, ∃ tag ∈ tags, tag.span = name.span
  tags : ∀ tag ∈ tags, (∃ name ∈ declared, tag.span = name.span) ∨
    ∃ v ∈ visits, tag ∈ v.expr.tags v.frames

namespace Accounts

variable {declared declared' names names' : List Name} {visits visits' : List Visit}
  {tags tags' : List Tag}

theorem nil : Accounts [] [] [] [] := ⟨by simp, nofun, nofun⟩

theorem append (h : Accounts declared names visits tags)
    (h' : Accounts declared' names' visits' tags') :
    Accounts (declared ++ declared') (names ++ names') (visits ++ visits') (tags ++ tags') where
  names name := by
    simp only [List.mem_append, h.names, h'.names, or_and_right, exists_or]
    exact or_or_or_comm
  tagged := by
    refine List.forall_mem_append.2 ⟨fun name mem => ?_, fun name mem => ?_⟩
    · obtain ⟨tag, inside, same⟩ := h.tagged name mem
      exact ⟨tag, List.mem_append_left _ inside, same⟩
    · obtain ⟨tag, inside, same⟩ := h'.tagged name mem
      exact ⟨tag, List.mem_append_right _ inside, same⟩
  tags := by
    refine List.forall_mem_append.2 ⟨fun tag mem => ?_, fun tag mem => ?_⟩
    · rcases h.tags tag mem with ⟨name, inside, same⟩ | ⟨v, inside, tagged⟩
      · exact .inl ⟨name, List.mem_append_left _ inside, same⟩
      · exact .inr ⟨v, List.mem_append_left _ inside, tagged⟩
    · rcases h'.tags tag mem with ⟨name, inside, same⟩ | ⟨v, inside, tagged⟩
      · exact .inl ⟨name, List.mem_append_right _ inside, same⟩
      · exact .inr ⟨v, List.mem_append_right _ inside, tagged⟩

theorem declare (names : List Name) (h : Highlight) :
    Accounts names names [] (names.map (·.tagged h)) where
  names := by simp
  tagged name mem := ⟨name.tagged h, List.mem_map_of_mem mem, rfl⟩
  tags tag mem := by
    obtain ⟨name, inside, rfl⟩ := List.mem_map.1 mem
    exact .inl ⟨name, inside, rfl⟩

theorem visit (v : Visit) : Accounts [] v.expr.names [v] (v.expr.tags v.frames) where
  names := by simp
  tagged := nofun
  tags tag mem := .inr ⟨v, List.mem_singleton_self v, mem⟩

theorem option (value : Option Expr) (frames : Frames) (pending : Option String) :
    Accounts [] (Expr.optionNames value) (value.toList.map (⟨·, frames, pending⟩))
      (Expr.optionTags frames value) := by
  cases value with
  | none => exact .nil
  | some e => exact .visit ⟨e, frames, pending⟩

/-- One more tag on a name that is declared. -/
theorem again (h : Accounts declared names visits tags) {name : Name} (mem : name ∈ declared)
    (shown : Highlight) : Accounts declared names visits (tags ++ [name.tagged shown]) where
  names := h.names
  tagged name mem := by
    obtain ⟨tag, inside, same⟩ := h.tagged name mem
    exact ⟨tag, List.mem_append_left _ inside, same⟩
  tags := by
    refine List.forall_mem_append.2 ⟨h.tags, List.forall_mem_singleton.2 ?_⟩
    exact .inl ⟨name, mem, rfl⟩

theorem fields (frames : Frames) (fields : List FieldDecl) :
    Accounts (fields.map (·.name)) (fields.flatMap FieldDecl.names)
      (fields.map fun field => ⟨field.value, frames, none⟩)
      (fields.flatMap (FieldDecl.tags frames)) := by
  induction fields with
  | nil => exact .nil
  | cons field rest ih =>
    exact ((declare [field.name] _).append (.visit ⟨field.value, frames, none⟩)).append ih

theorem superclass (superclass : Option Name) :
    Accounts superclass.toList superclass.toList []
      (superclass.map (·.tagged .className)).toList := by
  cases superclass with
  | none => exact .nil
  | some name => exact declare [name] _

end Accounts

mutual

theorem Stmt.accounts (frames : Frames) : ∀ st : Stmt,
    Accounts st.declared st.names (st.visits frames) (st.paint frames).2
  | .declare name value _ => (Accounts.declare [name] _).append (.option value _ _)
  | .function decl => functionAccounts frames decl
  | .classDecl decl => classAccounts frames decl
  | .ret _ value => .option value frames none
  | .expr e => .visit ⟨e, frames, none⟩
  | .block body => Stmt.accountsAll frames.enter body
  | .branch condition yes no =>
    ((Accounts.visit ⟨condition, frames, none⟩).append (yes.accounts frames)).append
      (Stmt.optionAccounts _ no)
  | .loop condition body =>
    (Accounts.visit ⟨condition, frames, none⟩).append (body.accounts frames)

theorem Stmt.accountsAll (frames : Frames) : ∀ body : List Stmt,
    Accounts (Stmt.declaredAll body) (Stmt.namesAll body) (Stmt.visitsAll frames body)
      (Stmt.paintAll frames body).2
  | [] => .nil
  | st :: rest => (st.accounts frames).append (Stmt.accountsAll _ rest)

theorem Stmt.optionAccounts (frames : Frames) : ∀ no : Option Stmt,
    Accounts (Stmt.optionDeclared no) (Stmt.optionNames no) (Stmt.optionVisits frames no)
      (Stmt.optionPaint frames no).2
  | none => .nil
  | some st => st.accounts frames

theorem functionAccounts (frames : Frames) : ∀ decl : FunctionDecl Stmt,
    Accounts (functionDeclared decl) (functionNames decl) (functionVisits frames decl)
      (functionPaint frames decl).2
  | ⟨name, params, body, _⟩ =>
    ((Accounts.declare [name] _).append (.declare params _)).append (Stmt.accountsAll _ body)

theorem methodsAccounts (frames : Frames) : ∀ decls : List (FunctionDecl Stmt),
    Accounts (methodsDeclared decls) (methodsNames decls) (methodsVisits frames decls)
      (methodsPaint frames decls).2
  | [] => .nil
  | decl :: rest => (functionAccounts frames decl).append (methodsAccounts _ rest)

theorem constructorAccounts (frames : Frames) : ∀ decl : Option (FunctionDecl Stmt),
    Accounts (constructorDeclared decl) (constructorNames decl) (constructorVisits frames decl)
      (constructorPaint frames decl)
  | none => .nil
  | some decl => (functionAccounts frames decl).again (by cases decl; exact List.mem_cons_self) _

theorem classAccounts (frames : Frames) : ∀ decl : ClassDecl Stmt,
    Accounts (classDeclared decl) (classNames decl) (classVisits frames decl)
      (classPaint frames decl).2
  | ⟨name, superclass, fields, methods, constructor⟩ => by
    let inside := (frames.define .className name.text).withClass superclass
    have own := (Accounts.declare [name] .className).append (.fields inside fields)
    have members := (own.append (methodsAccounts inside methods)).append
      (constructorAccounts (methodsPaint inside methods).1 constructor)
    have all := members.append (.superclass superclass)
    rw [List.append_nil] at all
    exact all

end

/-! ## Names in programs -/

/-- A name that is shown whatever it is bound to. -/
def Marked (p : List Stmt) (name : Name) : Prop :=
  name ∈ Stmt.declaredAll p ∨ ∃ v ∈ programVisits p, v.expr.Marks name

/-- A plain reference to a name that is bound in no scope around it. The tree may hold a reference
twice, as that of a compound assignment. -/
structure Unbound (p : List Stmt) (name : Name) : Prop where
  plain : ¬Marked p name
  visited : ∃ v ∈ programVisits p, v.expr.Part (.ident name)
  unbound : ∀ v ∈ programVisits p, v.expr.Part (.ident name) → v.frames.role? name.text = none

section
variable {p : List Stmt} {name : Name}

theorem accounts_program (p : List Stmt) :
    Accounts (Stmt.declaredAll p) (Stmt.namesAll p) (programVisits p) (nameTags p) :=
  Stmt.accountsAll [Dict.empty] p

theorem Marked.mem_names (h : Marked p name) : name ∈ Stmt.namesAll p := by
  rw [(accounts_program p).names]
  exact h.imp_right fun ⟨v, visited, marks⟩ => ⟨v, visited, marks.mem_names⟩

theorem Marked.tagged (h : Marked p name) : ∃ tag ∈ nameTags p, tag.span = name.span := by
  rcases h with declared | ⟨v, visited, marks⟩
  · exact (accounts_program p).tagged name declared
  · obtain ⟨tag, mem, same⟩ := marks.tagged v.frames
    exact ⟨tag, (tags_infix_nameTags visited .self).subset mem, same⟩

theorem tagged_of_bound {v : Visit} (visited : v ∈ programVisits p)
    (bound : v.expr.Bound v.frames name) : ∃ tag ∈ nameTags p, tag.span = name.span := by
  obtain ⟨tag, mem, same⟩ := bound.tagged
  exact ⟨tag, (tags_infix_nameTags visited .self).subset mem, same⟩

/-- Every tag of a program stands on a name that is shown in any case or that is bound. -/
theorem name_of_mem_nameTags {tag : Tag} (mem : tag ∈ nameTags p) :
    ∃ name ∈ Stmt.namesAll p, tag.span = name.span ∧
      (Marked p name ∨ ∃ v ∈ programVisits p, v.expr.Bound v.frames name) := by
  have accounts := accounts_program p
  rcases accounts.tags tag mem with ⟨name, declared, same⟩ | ⟨v, visited, tagged⟩
  · exact ⟨name, (accounts.names name).2 (.inl declared), same, .inl (.inl declared)⟩
  · obtain ⟨name, same, marks | bound⟩ := Expr.marks_or_bound_of_mem_tags tagged
    · have marked : Marked p name := .inr ⟨v, visited, marks⟩
      exact ⟨name, marked.mem_names, same, .inl marked⟩
    · have inside := (accounts.names name).2 (.inr ⟨v, visited, bound.mem_names⟩)
      exact ⟨name, inside, same, .inr ⟨v, visited, bound⟩⟩

/-- A name of a program that is neither marked nor bound is a plain reference. -/
theorem unbound_of_mem_names (inside : name ∈ Stmt.namesAll p) (plain : ¬Marked p name)
    (unbound : ¬∃ v ∈ programVisits p, v.expr.Bound v.frames name) : Unbound p name where
  plain := plain
  visited := by
    rcases ((accounts_program p).names name).1 inside with declared | ⟨v, visited, mem⟩
    · exact absurd (.inl declared) plain
    · rcases Expr.mem_names_iff.1 mem with part | ⟨span, target, part⟩
      · exact ⟨v, visited, part⟩
      · exact absurd (.inr ⟨v, visited, .afterDot part⟩) plain
  unbound v visited part := by
    by_contra found
    exact unbound ⟨v, visited, part, Option.isSome_iff_ne_none.2 found⟩

theorem Unbound.not_bound (h : Unbound p name) :
    ¬∃ v ∈ programVisits p, v.expr.Bound v.frames name := by
  rintro ⟨v, visited, part, found⟩
  rw [h.unbound v visited part] at found
  cases found

end

/-! ## Identifiers in texts -/

section
variable {text : String} {t : Token} {i : Nat}
  (mem : t ∈ (Source.ofText .file text).tokens) (inside : t.span.contains i = true)
include mem inside

/-- A name of the program that stands where the token does is that of the token. -/
theorem eq_name_of_span {name : Name}
    (read : name ∈ Stmt.namesAll (Source.ofText .file text).statements)
    (same : name.span = t.span) : name = t.name := by
  obtain ⟨u, found, -, rfl⟩ := namesFrom_ofTokens .file _ name read
  have here : u.span.contains i = true := by
    rw [show u.span = t.span from same]
    exact inside
  exact congrArg Token.name
    (token_unique (scan_apart text) (mem_scan_of_mem_stream found) mem here inside)

variable (kind : t.kind = .identifier)
include kind

/-- The tags of names alone decide how an identifier is shown. -/
theorem get_paint_identifier : (paint text).get i =
    ((lastTag (nameTags (Source.ofText .file text).statements) i).map Tag.highlight).getD
      .none := by
  have untagged : lastTag (tokenTags (Source.ofText .file text).tokens) i = none :=
    lastTag_of_other (scan_apart text) (tokenTags_on _) mem (not_not_intro kind) inside
  have below : i < (Overlay.ofText text).length := by
    rw [Overlay.length_ofText]
    exact Nat.lt_of_lt_of_le ((Span.contains_iff ..).1 inside).2 (fits_of_mem_scan mem).2
  rw [paint, Overlay.get_tagAll _ _ below, Overlay.get_ofText, lastTag_append_comm (.inl untagged)]
  unfold lastTag at untagged ⊢
  rw [List.filter_append, List.getLast?_eq_none_iff.1 untagged, List.append_nil]

/-- An identifier is shown if and only if the tag of a name stands on it. -/
theorem identifier_shown_iff : (paint text).get i ≠ .none ↔
    ∃ tag ∈ nameTags (Source.ofText .file text).statements, tag.span = t.span := by
  rw [get_paint_identifier mem inside kind]
  cases last : lastTag (nameTags (Source.ofText .file text).statements) i with
  | none =>
    refine iff_of_false (· rfl) fun ⟨tag, tagged, same⟩ => ?_
    have apart := lastTag_eq_none.1 last tag tagged
    rw [same, inside] at apart
    cases apart
  | some tag =>
    obtain ⟨tagged, inTag⟩ := lastTag_eq_some last
    obtain ⟨u, found, on⟩ := nameTags_on .file _ tag tagged
    have on : tag.On (Source.ofText .file text).tokens (· = .identifier) :=
      ⟨u, mem_scan_of_mem_stream found, on⟩
    have here := on.of_contains (scan_apart text) mem inTag inside
    refine iff_of_true (fun unseen => ?_) ⟨tag, tagged, here.2.1⟩
    have role := (Stmt.shows_paintAll _ _ tag tagged).1
    rw [show tag.highlight = .none from unseen] at role
    cases role

/-- An identifier is shown if and only if its name is marked or bound. -/
theorem identifier_shown_iff_name : (paint text).get i ≠ .none ↔
    Marked (Source.ofText .file text).statements t.name ∨
      ∃ v ∈ programVisits (Source.ofText .file text).statements,
        v.expr.Bound v.frames t.name := by
  rw [identifier_shown_iff mem inside kind]
  constructor
  · rintro ⟨tag, tagged, here⟩
    obtain ⟨name, read, same, known⟩ := name_of_mem_nameTags tagged
    exact eq_name_of_span mem inside read (same.symm.trans here) ▸ known
  · rintro (marked | ⟨v, visited, bound⟩)
    · exact marked.tagged
    · exact tagged_of_bound visited bound

/-- An identifier is not shown if and only if its name is not in the program or is unbound there. -/
theorem identifier_hidden_iff : (paint text).get i = .none ↔
    t.name ∉ Stmt.namesAll (Source.ofText .file text).statements ∨
      Unbound (Source.ofText .file text).statements t.name := by
  rw [← not_iff_not, ← ne_eq, identifier_shown_iff_name mem inside kind]
  constructor
  · rintro (marked | ⟨v, visited, bound⟩) (lost | unbound)
    · exact lost marked.mem_names
    · exact unbound.plain marked
    · exact lost (((accounts_program _).names _).2 (.inr ⟨v, visited, bound.mem_names⟩))
    · exact unbound.not_bound ⟨v, visited, bound⟩
  · intro known
    obtain ⟨read, bound⟩ := not_or.1 known
    by_contra neither
    obtain ⟨plain, unbound⟩ := not_or.1 neither
    exact bound (unbound_of_mem_names (not_not.1 read) plain unbound)

end

/-- **Every name is shown unless it is unbound or replaced.** The program of a text without problems
is what is kept of a program as written that has all names of the text. An identifier whose name is
declared, is that of a superclass, stands after a dot or is called is shown, if the program still
has it; and only identifiers that the program lost with a replaced constructor, and plain references
that no scope binds, are not shown. -/
theorem names_shown_unless_unbound_or_replaced (text : String)
    (clean : (Source.ofText .file text).diagnostics = []) :
    let source := Source.ofText .file text
    (∃ written, Stmt.keptAll written = source.statements ∧
      ∀ name, name ∈ Stmt.namesAll written ↔ name.From source.tokens) ∧
    ∀ t ∈ source.tokens, t.kind = .identifier → ∀ i, t.span.contains i = true →
      (Marked source.statements t.name → (paint text).get i ≠ .none) ∧
      ((paint text).get i = .none ↔
        t.name ∉ Stmt.namesAll source.statements ∨ Unbound source.statements t.name) := by
  intro source
  obtain ⟨-, noErrors⟩ := Source.diagnostics_eq_nil.1 clean
  refine ⟨Program.written_of_clean noErrors, fun t mem kind i inside => ⟨fun marked => ?_, ?_⟩⟩
  · exact (identifier_shown_iff_name mem inside kind).2 (.inl marked)
  · exact identifier_hidden_iff mem inside kind

/-- A class with two methods of its name, and a reference to a name that is not bound. -/
def replacedText : String := "class A \x7b A(a) \x7b\x7d A() \x7b\x7d \x7d b;"

/-- The name of the first of them, its parameter and the reference are not shown. The name of the
second is. -/
theorem replaced_constructor_not_shown :
    let source := Source.ofText .file replacedText
    let first : Token := ⟨.identifier, "A", 1, none, ⟨10, 11⟩⟩
    let param : Token := ⟨.identifier, "a", 1, none, ⟨12, 13⟩⟩
    let second : Token := ⟨.identifier, "A", 1, none, ⟨18, 19⟩⟩
    let reference : Token := ⟨.identifier, "b", 1, none, ⟨27, 28⟩⟩
    source.diagnostics = [] ∧ [first, param, second, reference] ⊆ source.tokens ∧
    (paint replacedText).get 10 = .none ∧ (paint replacedText).get 12 = .none ∧
    (paint replacedText).get 18 ≠ .none ∧
    (paint replacedText).get 27 = .none ∧ Unbound source.statements reference.name := by
  intro source first param second reference
  have found : source.diagnostics = [] ∧ [first, param, second, reference] ⊆ source.tokens ∧
      first.name ∉ Stmt.namesAll source.statements ∧
      param.name ∉ Stmt.namesAll source.statements ∧
      second.name ∈ Stmt.declaredAll source.statements ∧
      reference.name ∈ Stmt.namesAll source.statements ∧
      (paint replacedText).get 27 = .none := by decide +kernel
  obtain ⟨clean, tokens, lost, lostParam, declared, read, unseen⟩ := found
  obtain ⟨-, shown⟩ := names_shown_unless_unbound_or_replaced replacedText clean
  have hidden (t : Token) (mem : t ∈ [first, param, second, reference]) :=
    shown t (tokens mem)
  refine ⟨clean, tokens, ?_, ?_, ?_, unseen, ?_⟩
  · exact (hidden first (by simp) rfl 10 rfl).2.2 (.inl lost)
  · exact (hidden param (by simp) rfl 12 rfl).2.2 (.inl lostParam)
  · exact (hidden second (by simp) rfl 18 rfl).1 (.inl declared)
  · exact ((hidden reference (by simp) rfl 27 rfl).2.1 unseen).resolve_left (not_not_intro read)

end Scriptlet
