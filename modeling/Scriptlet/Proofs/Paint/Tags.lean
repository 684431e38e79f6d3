import Scriptlet.Paint.Names
import Scriptlet.Paint.Tokens
import Scriptlet.Proofs.Reader.Names

/-!
# Where tags stand

The tags of the tokens stand on tokens that are no identifiers, and show what the kind of the token
admits (`tokenTags_on`). The tags of the names stand on identifiers and show a role (`nameTags_on`).
So the two passes over a text never tag the same token.
-/

namespace Scriptlet

/-! ## What a token may show -/

/-- The highlights of names. -/
def Highlight.isRole : Highlight → Bool
  | variableName | accessor | functionName | constructorName | className | argument | this | base
  | super | called => true
  | _ => false

theorem Role.isRole_highlight (role : Role) : role.highlight.isRole = true := by
  cases role <;> rfl

/-- Whether a token of this kind opens or closes a pair of brackets. -/
def TokenKind.isBracket (kind : TokenKind) : Bool := kind.opens?.isSome || kind.closes?.isSome

/-- Whether the characters of a token of this kind may be shown in this way. Keywords, literals and
comments have one highlight each; an identifier may have a role and a bracket a colour, and
everything else is left as it is. -/
def TokenKind.admits (kind : TokenKind) (h : Highlight) : Bool :=
  match kind.highlight? with
  | some own => h == own
  | none =>
    h == .none || if kind = .identifier then h.isRole else kind.isBracket && h.isBracket

theorem admits_of_highlight {kind : TokenKind} {h : Highlight} (own : kind.highlight? = some h) :
    kind.admits h = true := by
  simp [TokenKind.admits, own]

theorem admits_none {kind : TokenKind} (plain : kind.highlight? = none) :
    kind.admits .none = true := by
  simp [TokenKind.admits, plain]

theorem exists_admits (kind : TokenKind) : ∃ h, kind.admits h = true := by
  cases own : kind.highlight? with
  | none => exact ⟨.none, admits_none own⟩
  | some h => exact ⟨h, admits_of_highlight own⟩

theorem admits_role {h : Highlight} (role : h.isRole = true) :
    TokenKind.identifier.admits h = true := by
  simp [TokenKind.admits, TokenKind.highlight?, role]

theorem admits_colour {kind : TokenKind} (bracket : kind.isBracket = true) (colour : Fin 3) :
    kind.admits (.bracket colour) = true := by
  cases kind <;> first | rfl | cases bracket

theorem ne_identifier_of_isBracket {kind : TokenKind} (bracket : kind.isBracket = true) :
    kind ≠ .identifier := by
  rintro rfl
  cases bracket

/-- A tag on a token of some kind, showing what that kind admits. -/
def Tag.On (tokens : List Token) (K : TokenKind → Prop) (tag : Tag) : Prop :=
  ∃ t ∈ tokens, K t.kind ∧ tag.span = t.span ∧ t.kind.admits tag.highlight = true

theorem Tag.On.mono {tokens : List Token} {J K : TokenKind → Prop} {tag : Tag}
    (on : tag.On tokens J) (imp : ∀ kind, J kind → K kind) : tag.On tokens K := by
  obtain ⟨t, mem, kind, rest⟩ := on
  exact ⟨t, mem, imp _ kind, rest⟩

/-! ## Tokens -/

section
variable {tokens : List Token} {waiting : List OpenBracket}

/-- The open brackets stand on brackets among the tokens. -/
def Opened (tokens : List Token) (waiting : List OpenBracket) : Prop :=
  ∀ b ∈ waiting, ∃ t ∈ tokens, t.kind.isBracket = true ∧ b.span = t.span

/-- A colour for a bracket. -/
theorem on_of_bracket {t : Token} (mem : t ∈ tokens) (bracket : t.kind.isBracket = true)
    (depth : Nat) : Tag.On tokens (· ≠ .identifier) ⟨t.span, .ofDepth depth⟩ :=
  ⟨t, mem, ne_identifier_of_isBracket bracket, rfl, admits_colour bracket _⟩

theorem bracketStep_on {t : Token} (mem : t ∈ tokens) (opened : Opened tokens waiting) :
    (∀ tag ∈ (bracketStep waiting t).1, tag.On tokens (· ≠ .identifier)) ∧
      Opened tokens (bracketStep waiting t).2 := by
  unfold bracketStep
  split
  · next type opens =>
    have bracket : t.kind.isBracket = true := by simp [TokenKind.isBracket, opens]
    exact ⟨List.forall_mem_nil _, List.forall_mem_cons.2 ⟨⟨t, mem, bracket, rfl⟩, opened⟩⟩
  · next type _ closes =>
    have bracket : t.kind.isBracket = true := by simp [TokenKind.isBracket, closes]
    split
    · exact ⟨List.forall_mem_nil _, List.forall_mem_nil _⟩
    · next top outer =>
      obtain ⟨⟨start, before, opens, same⟩, others⟩ := List.forall_mem_cons.1 opened
      split
      · refine ⟨List.forall_mem_cons.2 ⟨?_, List.forall_mem_singleton.2 ?_⟩, others⟩
        · rw [same]
          exact on_of_bracket before opens _
        · exact on_of_bracket mem bracket _
      · exact ⟨List.forall_mem_nil _, opened⟩
  · exact ⟨List.forall_mem_nil _, opened⟩

theorem tokenTagsFrom_on {rest : List Token} (sub : rest ⊆ tokens)
    (opened : Opened tokens waiting) :
    ∀ tag ∈ tokenTagsFrom waiting rest, tag.On tokens (· ≠ .identifier) := by
  induction rest generalizing waiting with
  | nil => exact List.forall_mem_nil _
  | cons t rest ih =>
    obtain ⟨mem, sub⟩ := List.cons_subset.1 sub
    obtain ⟨pair, later⟩ := bracketStep_on mem opened
    rw [tokenTagsFrom]
    refine List.forall_mem_append.2 ⟨List.forall_mem_append.2 ⟨?_, pair⟩, ih sub later⟩
    intro tag own
    obtain ⟨h, shown, rfl⟩ := Option.map_eq_some_iff.1 (Option.mem_toList.1 own)
    refine ⟨t, mem, ?_, rfl, admits_of_highlight shown⟩
    intro identifier
    rw [identifier] at shown
    cases shown

/-- The tags of the tokens leave the identifiers alone. -/
theorem tokenTags_on (tokens : List Token) :
    ∀ tag ∈ tokenTags tokens, tag.On tokens (· ≠ .identifier) :=
  tokenTagsFrom_on (List.Subset.refl tokens) (List.forall_mem_nil _)

/-- A token whose kind decides how it is shown has its tag. -/
theorem mem_tokenTagsFrom {rest : List Token} {t : Token} (mem : t ∈ rest) {h : Highlight}
    (own : t.kind.highlight? = some h) : ⟨t.span, h⟩ ∈ tokenTagsFrom waiting rest := by
  induction rest generalizing waiting with
  | nil => cases mem
  | cons u rest ih =>
    rw [tokenTagsFrom]
    rcases List.mem_cons.1 mem with rfl | mem
    · refine List.mem_append_left _ (List.mem_append_left _ ?_)
      simp [own]
    · exact List.mem_append_right _ (ih mem)

end

/-! ## Names -/

/-- Each tag shows one of these names in a role. -/
def Shows (names : List Name) (tags : List Tag) : Prop :=
  ∀ tag ∈ tags, tag.highlight.isRole = true ∧ ∃ name ∈ names, tag.span = name.span

section
variable {names more : List Name} {tags tags' : List Tag}

theorem shows_nil : Shows names [] := List.forall_mem_nil _

theorem shows_tagged {name : Name} {h : Highlight} (mem : name ∈ names) (role : h.isRole = true) :
    Shows names [name.tagged h] :=
  List.forall_mem_singleton.2 ⟨role, name, mem, rfl⟩

theorem Shows.mono (h : Shows names tags) (sub : names ⊆ more) : Shows more tags := by
  intro tag mem
  obtain ⟨role, name, inside, same⟩ := h tag mem
  exact ⟨role, name, sub inside, same⟩

theorem Shows.left (h : Shows names tags) : Shows (names ++ more) tags :=
  h.mono (List.subset_append_left _ _)

theorem Shows.right (h : Shows more tags) : Shows (names ++ more) tags :=
  h.mono (List.subset_append_right _ _)

theorem Shows.also (h : Shows names tags) (h' : Shows names tags') : Shows names (tags ++ tags') :=
  List.forall_mem_append.2 ⟨h, h'⟩

/-- Tags follow each other as the names do. -/
theorem Shows.append (h : Shows names tags) (h' : Shows more tags') :
    Shows (names ++ more) (tags ++ tags') :=
  h.left.also h'.right

theorem Shows.cons {name : Name} {shown : Highlight} (role : shown.isRole = true)
    (h : Shows names tags) : Shows (name :: names) (name.tagged shown :: tags) :=
  (shows_tagged (List.mem_singleton.2 rfl) role).append h

theorem shows_map (names : List Name) {h : Highlight} (role : h.isRole = true) :
    Shows names (names.map (·.tagged h)) := by
  induction names with
  | nil => exact shows_nil
  | cons name rest ih => exact ih.cons role

end

theorem shows_referenceTags (frames : Frames) (name : Name) :
    Shows [name] (referenceTags frames name) := by
  unfold referenceTags
  cases frames.role? name.text with
  | none => exact shows_nil
  | some role => exact shows_tagged (List.mem_singleton.2 rfl) role.isRole_highlight

theorem shows_calleeTags (callee : Expr) : Shows callee.names (calleeTags callee) := by
  cases callee with
  | ident name => exact shows_tagged List.mem_cons_self rfl
  | _ => exact shows_nil

theorem shows_calledFieldTags (callee : Expr) : Shows callee.names (calledFieldTags callee) := by
  cases callee with
  | field span target name => exact shows_tagged List.mem_cons_self rfl
  | _ => exact shows_nil

mutual

theorem Expr.shows (frames : Frames) : ∀ e : Expr, Shows e.names (e.tags frames)
  | .literal .. => shows_nil
  | .ident name => shows_referenceTags frames name
  | .group _ inner => inner.shows frames
  | .array _ elements => Expr.showsAll frames elements
  | .unary _ _ operand | .stepThenTake _ _ operand | .takeThenStep _ _ operand =>
    operand.shows frames
  | .binary _ _ left right | .logical _ _ left right | .assign _ left right
  | .index _ left right => (left.shows frames).append (right.shows frames)
  | .ternary _ condition yes no =>
    ((condition.shows frames).append (yes.shows frames)).append (no.shows frames)
  | .field _ target name => (target.shows frames).cons rfl
  | .call _ callee args => by
    have before := (Expr.showsAll frames args).right.also (shows_calleeTags callee).left
    exact (before.also (callee.shows frames).left).also (shows_calledFieldTags callee).left

theorem Expr.showsAll (frames : Frames) : ∀ es : List Expr,
    Shows (Expr.namesAll es) (Expr.tagsAll frames es)
  | [] => shows_nil
  | e :: rest => (e.shows frames).append (Expr.showsAll frames rest)

end

theorem Expr.shows_option (frames : Frames) (value : Option Expr) :
    Shows (Expr.optionNames value) (Expr.optionTags frames value) := by
  cases value with
  | none => exact shows_nil
  | some e => exact e.shows frames

theorem shows_fields (frames : Frames) (fields : List FieldDecl) :
    Shows (fields.flatMap FieldDecl.names) (fields.flatMap (FieldDecl.tags frames)) := by
  induction fields with
  | nil => exact shows_nil
  | cons field rest ih => exact ((field.value.shows frames).cons rfl).append ih

mutual

theorem Stmt.shows_paint (frames : Frames) : ∀ st : Stmt, Shows st.names (st.paint frames).2
  | .declare _ value _ => (Expr.shows_option _ value).cons rfl
  | .function decl => shows_functionPaint frames decl
  | .classDecl decl => shows_classPaint frames decl
  | .ret _ value => Expr.shows_option frames value
  | .expr e => e.shows frames
  | .block body => Stmt.shows_paintAll frames.enter body
  | .branch condition yes no =>
    ((condition.shows frames).append (yes.shows_paint frames)).append (Stmt.shows_optionPaint _ no)
  | .loop condition body => (condition.shows frames).append (body.shows_paint frames)

theorem Stmt.shows_paintAll (frames : Frames) : ∀ body : List Stmt,
    Shows (Stmt.namesAll body) (Stmt.paintAll frames body).2
  | [] => shows_nil
  | st :: rest => (st.shows_paint frames).append (Stmt.shows_paintAll _ rest)

theorem Stmt.shows_optionPaint (frames : Frames) : ∀ no : Option Stmt,
    Shows (Stmt.optionNames no) (Stmt.optionPaint frames no).2
  | none => shows_nil
  | some st => st.shows_paint frames

theorem shows_functionPaint (frames : Frames) : ∀ decl : FunctionDecl Stmt,
    Shows (functionNames decl) (functionPaint frames decl).2
  | ⟨_, params, body, _⟩ => ((shows_map params rfl).cons rfl).append (Stmt.shows_paintAll _ body)

theorem shows_methodsPaint (frames : Frames) : ∀ decls : List (FunctionDecl Stmt),
    Shows (methodsNames decls) (methodsPaint frames decls).2
  | [] => shows_nil
  | decl :: rest => (shows_functionPaint frames decl).append (shows_methodsPaint _ rest)

theorem shows_constructorPaint (frames : Frames) : ∀ decl : Option (FunctionDecl Stmt),
    Shows (constructorNames decl) (constructorPaint frames decl)
  | none => shows_nil
  | some decl =>
    (shows_functionPaint frames decl).also (shows_tagged (name_mem_functionNames decl) rfl)

theorem shows_classPaint (frames : Frames) : ∀ decl : ClassDecl Stmt,
    Shows (classNames decl) (classPaint frames decl).2
  | ⟨name, superclass, fields, methods, constructor⟩ => by
    have above : Shows superclass.toList (superclass.map (·.tagged .className)).toList := by
      cases superclass with
      | none => exact shows_nil
      | some parent => exact shows_tagged (List.mem_singleton.2 rfl) rfl
    exact (((((shows_fields _ fields).cons rfl).append (shows_methodsPaint _ methods)).append
      (shows_constructorPaint _ constructor)).append above)

end

/-- The tags of the names in a program that was read stand on identifiers. -/
theorem nameTags_on (mode : Mode) (tokens : List Token) :
    ∀ tag ∈ nameTags (Program.ofTokens mode tokens).statements,
      tag.On (Stream.ofTokens tokens).tokens (· = .identifier) := by
  intro tag mem
  obtain ⟨role, name, inside, same⟩ := Stmt.shows_paintAll _ _ tag mem
  obtain ⟨t, found, kind, rfl⟩ := namesFrom_ofTokens mode tokens name inside
  exact ⟨t, found, kind, same, by rw [kind]; exact admits_role role⟩

end Scriptlet
