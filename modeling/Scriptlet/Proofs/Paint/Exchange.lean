import Scriptlet.Proofs.Paint.Exact
import Scriptlet.Proofs.Paint.Shared

/-!
# Inner scopes do not leak

A block, a function and a class open a scope of their own. If one of them is exchanged for another
of the same kind that declares the same name (`Stmt.Alike`), then the names before and after it are
shown as they were (`inner_scopes_do_not_leak`), whatever is declared inside.

What follows sees an inner scope only through the name that is declared outside of it
(`Stmt.Alike.frames`), and the tags inside stand on names inside (`Stmt.Alike.tags`), so on a
character elsewhere the two programs put the same tags in the same order. This holds of a walk over
frames as of one through handles to scopes that are shared.
-/

namespace Scriptlet

/-! ## Names inside and outside -/

namespace Stmt

/-- The names inside the scope that a statement opens. -/
def inside : Stmt → List Name
  | block body => namesAll body
  | function ⟨_, params, body, _⟩ => params ++ namesAll body
  | classDecl ⟨_, _, fields, methods, constructor⟩ =>
    fields.flatMap FieldDecl.names ++ methodsNames methods ++ constructorNames constructor
  | _ => []

/-- The names of a declaration that stand outside its scope: its own and that of a superclass. -/
def heading : Stmt → List Name
  | function decl => [decl.name]
  | classDecl decl => decl.name :: decl.superclass.toList
  | _ => []

/-- How these names are shown. -/
def headingHighlight : Stmt → Highlight
  | function _ => .functionName
  | _ => .className

/-- Two blocks, or two functions or classes of the same name. -/
inductive Alike : Stmt → Stmt → Prop
  | block (body body' : List Stmt) : Alike (block body) (block body')
  | function {decl decl' : FunctionDecl Stmt} : decl.name.text = decl'.name.text →
      decl.isMethod = decl'.isMethod → Alike (function decl) (function decl')
  | classDecl {decl decl' : ClassDecl Stmt} : decl.name.text = decl'.name.text →
      Alike (classDecl decl) (classDecl decl')

end Stmt

/-- The names that two lists do not have in the same place. -/
def differingNames : List Name → List Name → List Name
  | name :: rest, name' :: rest' =>
    if name = name' then differingNames rest rest' else name :: name' :: differingNames rest rest'
  | rest, rest' => rest ++ rest'

/-- The names that are exchanged with a statement: all inside, and those of the heading that are not
the same. -/
def Stmt.exchanged (s s' : Stmt) : List Name :=
  s.inside ++ s'.inside ++ differingNames s.heading s'.heading

/-! ## Tags on a character -/

/-- The tags on a character, in their order. -/
def tagsOn (i : Nat) (tags : List Tag) : List Tag := tags.filter (·.span.contains i)

section
variable {i : Nat} {names names' : List Name} {tags tags' : List Tag}

@[simp] theorem tagsOn_append : tagsOn i (tags ++ tags') = tagsOn i tags ++ tagsOn i tags' :=
  List.filter_append ..

/-- Tags on other names are not on a character. -/
theorem tagsOn_of_shows (shows_ : Shows names tags)
    (outside : ∀ y ∈ names, y.span.contains i = false) : tagsOn i tags = [] := by
  refine List.filter_eq_nil_iff.2 fun tag mem contained => ?_
  obtain ⟨-, y, there, same⟩ := shows_ tag mem
  rw [same, outside y there] at contained
  cases contained

/-- Names that differ only elsewhere have the same tags on a character. -/
theorem tagsOn_heading (h : Highlight)
    (outside : ∀ y ∈ differingNames names names', y.span.contains i = false) :
    tagsOn i (names.map (·.tagged h)) = tagsOn i (names'.map (·.tagged h)) := by
  have nothing {l : List Name} (outside : ∀ y ∈ l, y.span.contains i = false) :
      tagsOn i (l.map (·.tagged h)) = [] := by
    refine List.filter_eq_nil_iff.2 ?_
    simpa [Name.tagged] using outside
  fun_induction differingNames names names' with
  | case1 rest name rest' ih =>
    simp only [List.map_cons, tagsOn, List.filter_cons]
    rw [← tagsOn, ← tagsOn, ih outside]
  | case2 name rest name' rest' other ih =>
    obtain ⟨first, outside⟩ := List.forall_mem_cons.1 outside
    obtain ⟨first', outside⟩ := List.forall_mem_cons.1 outside
    simp only [List.map_cons, tagsOn, List.filter_cons, Name.tagged, first, first',
      Bool.false_eq_true, if_false]
    exact ih outside
  | case3 rest rest' shape =>
    obtain ⟨left, right⟩ := List.forall_mem_append.1 outside
    rw [nothing left, nothing right]

end

/-! ## Statements of one kind -/

namespace Stmt.Alike

variable {s s' : Stmt} (alike : s.Alike s')
include alike

theorem headingHighlight : s.headingHighlight = s'.headingHighlight := by
  cases alike <;> rfl

/-- What follows sees the same names. -/
theorem frames (frames : Frames) : (s.paint frames).1 = (s'.paint frames).1 := by
  cases alike with
  | block => rfl
  | @function decl decl' name method =>
    obtain ⟨name₁, params, body, method₁⟩ := decl
    obtain ⟨name₂, params', body', method₂⟩ := decl'
    cases method
    show (if method₁ then frames else frames.define .functionName name₁.text) =
      (if method₁ then frames else frames.define .functionName name₂.text)
    rw [name]
  | @classDecl decl decl' name =>
    obtain ⟨name₁, superclass, fields, methods, constructor⟩ := decl
    obtain ⟨name₂, superclass', fields', methods', constructor'⟩ := decl'
    show frames.define .className name₁.text = frames.define .className name₂.text
    rw [name]

theorem symm : s'.Alike s := by
  cases alike with
  | block body body' => exact .block body' body
  | function name method => exact .function name.symm method.symm
  | classDecl name => exact .classDecl name.symm

/-- Outside of the names inside, there are only the tags of the heading. -/
theorem tags (frames : Frames) {i : Nat} (outside : ∀ y ∈ s.inside, y.span.contains i = false) :
    tagsOn i (s.paint frames).2 = tagsOn i (s.heading.map (·.tagged s.headingHighlight)) := by
  cases alike with
  | block body body' => exact tagsOn_of_shows (Stmt.shows_paintAll frames.enter body) outside
  | @function decl decl' =>
    obtain ⟨name, params, body, isMethod⟩ := decl
    let around := if isMethod then frames else frames.define .functionName name.text
    have shown : Shows params (params.map (·.tagged .argument)) := shows_map params rfl
    have inner := shown.append (Stmt.shows_paintAll (around.withParams params) body)
    show tagsOn i ([name.tagged .functionName] ++ (params.map (·.tagged .argument) ++ _)) = _
    rw [tagsOn_append, tagsOn_of_shows inner outside, List.append_nil]
    rfl
  | @classDecl decl decl' =>
    obtain ⟨name, superclass, fields, methods, constructor⟩ := decl
    let around := (frames.define .className name.text).withClass superclass
    have inner := ((shows_fields around fields).append (shows_methodsPaint around methods)).append
      (shows_constructorPaint (methodsPaint around methods).1 constructor)
    show tagsOn i (name.tagged .className :: fields.flatMap (FieldDecl.tags around) ++
      (methodsPaint around methods).2 ++
      constructorPaint (methodsPaint around methods).1 constructor ++
      (superclass.map (·.tagged .className)).toList) = _
    rw [List.cons_append, List.cons_append, ← List.singleton_append, List.append_assoc [_],
      tagsOn_append, tagsOn_append, tagsOn_of_shows inner outside, List.nil_append,
      ← tagsOn_append]
    cases superclass <;> rfl

/-- On a character outside of what is exchanged, the two statements put the same tags. -/
theorem tags_same (frames : Frames) {i : Nat}
    (outside : ∀ y ∈ s.exchanged s', y.span.contains i = false) :
    tagsOn i (s.paint frames).2 = tagsOn i (s'.paint frames).2 := by
  obtain ⟨inside, headings⟩ := List.forall_mem_append.1 outside
  obtain ⟨left, right⟩ := List.forall_mem_append.1 inside
  rw [alike.tags frames left, alike.symm.tags frames right, alike.headingHighlight]
  exact tagsOn_heading _ headings

end Stmt.Alike

/-! ## Programs -/

section
variable {s s' : Stmt} (alike : s.Alike s') (before after : List Stmt) {i : Nat}
  (outside : ∀ y ∈ s.exchanged s', y.span.contains i = false)
include alike outside

/-- The tags on a character outside of what is exchanged are those that there were. -/
theorem tagsOn_exchange (frames : Frames) :
    tagsOn i (Stmt.paintAll frames (before ++ s :: after)).2 =
      tagsOn i (Stmt.paintAll frames (before ++ s' :: after)).2 := by
  induction before generalizing frames with
  | nil =>
    show tagsOn i ((s.paint frames).2 ++ (Stmt.paintAll (s.paint frames).1 after).2) =
      tagsOn i ((s'.paint frames).2 ++ (Stmt.paintAll (s'.paint frames).1 after).2)
    rw [tagsOn_append, tagsOn_append, alike.tags_same frames outside, alike.frames frames]
  | cons first rest ih =>
    show tagsOn i ((first.paint frames).2 ++ _) = tagsOn i ((first.paint frames).2 ++ _)
    rw [tagsOn_append, tagsOn_append]
    exact congrArg _ (ih (first.paint frames).1)

end

/-- Overlays that show a character alike still do after tags that are the same on it. -/
theorem Overlay.get_tagAll_congr {o o' : Overlay} {tags tags' : List Tag} {i : Nat}
    (length : o.length = o'.length) (shown : o.get i = o'.get i)
    (same : tagsOn i tags = tagsOn i tags') : (o.tagAll tags).get i = (o'.tagAll tags').get i := by
  rcases Nat.lt_or_ge i o.length with below | beyond
  · have last : lastTag tags i = lastTag tags' i := congrArg List.getLast? same
    rw [get_tagAll o tags below, get_tagAll o' tags' (length ▸ below), last, shown]
  · rw [get_of_length_le (by rwa [length_tagAll]),
      get_of_length_le (by rwa [length_tagAll, ← length])]

/-- **Inner scopes do not leak.** A block is exchanged for another, or a function or a class for
another of the same name. On every token that has no character in common with a name that is
exchanged, the walk puts the same tags in the same order, in whatever scope of a store it stands;
and on overlays of the same length that showed the token alike, it is shown alike. -/
theorem inner_scopes_do_not_leak {s s' : Stmt} (alike : s.Alike s') (before after : List Stmt) :
    ∀ token : Span, (∀ y ∈ s.exchanged s', token.Apart y.span) → ∀ i, token.contains i = true →
      (∀ (store : Scopes Role) (here : ScopeId), here.index < store.nodes.size →
        tagsOn i (Stmt.markAll here store (before ++ s :: after)).2 =
          tagsOn i (Stmt.markAll here store (before ++ s' :: after)).2) ∧
      ∀ o o' : Overlay, o.length = o'.length → o.get i = o'.get i →
        (o.tagAll (nameTags (before ++ s :: after))).get i =
          (o'.tagAll (nameTags (before ++ s' :: after))).get i := by
  intro token apart i inside
  have outside : ∀ y ∈ s.exchanged s', y.span.contains i = false :=
    fun y mem => apart y mem i inside
  have same := tagsOn_exchange alike before after outside
  refine ⟨fun store here there => ?_, fun o o' length shown => ?_⟩
  · rw [(Stmt.marks_all there _).tags, (Stmt.marks_all there _).tags]
    exact same (store.frames here)
  · exact Overlay.get_tagAll_congr length shown (same [Dict.empty])

/-- After a variable `b`, a class `A` with a superclass and a field `b`, and a class `A` whose
constructor has a parameter `b`; then `b` and `A` are read. -/
theorem class_exchange_hidden :
    let before := [Stmt.declare ⟨"b", ⟨4, 5⟩⟩ none false]
    let field : FieldDecl := ⟨⟨"b", ⟨23, 24⟩⟩, .ident ⟨"this", ⟨27, 31⟩⟩⟩
    let s := Stmt.classDecl ⟨⟨"A", ⟨13, 14⟩⟩, some ⟨"B", ⟨17, 18⟩⟩, [field], [], none⟩
    let create : FunctionDecl Stmt := ⟨⟨"A", ⟨17, 18⟩⟩, [⟨"b", ⟨19, 20⟩⟩], [], true⟩
    let s' := Stmt.classDecl ⟨⟨"A", ⟨13, 14⟩⟩, none, [], [], some create⟩
    let after := [Stmt.expr (.ident ⟨"b", ⟨40, 41⟩⟩), Stmt.expr (.ident ⟨"A", ⟨43, 44⟩⟩)]
    s.Alike s' ∧
    tagsOn 40 (Stmt.markAll Scopes.rootId Scopes.root (before ++ s :: after)).2 =
      tagsOn 40 (Stmt.markAll Scopes.rootId Scopes.root (before ++ s' :: after)).2 ∧
    ((Overlay.blank 45).tagAll (nameTags (before ++ s :: after))).get 23 ≠
      ((Overlay.blank 45).tagAll (nameTags (before ++ s' :: after))).get 23 ∧
    ((Overlay.blank 45).tagAll (nameTags (before ++ s' :: after))).get 40 = .variableName := by
  intro before field s create s' after
  have alike : s.Alike s' := .classDecl rfl
  have apart : ∀ y ∈ s.exchanged s', Span.Apart ⟨40, 41⟩ y.span := by
    have ends : ∀ y ∈ s.exchanged s', y.span.stop ≤ 40 := by decide
    exact fun y mem => (Span.apart_of_stop_le (ends y mem)).symm
  have shown : ((Overlay.blank 45).tagAll (nameTags (before ++ s :: after))).get 40 =
      .variableName := by decide
  obtain ⟨marked, hidden⟩ :=
    inner_scopes_do_not_leak alike before after ⟨40, 41⟩ apart 40 (by decide)
  exact ⟨alike, marked Scopes.root Scopes.rootId (by decide), by decide,
    (hidden (Overlay.blank 45) (Overlay.blank 45) rfl rfl).symm.trans shown⟩

end Scriptlet
