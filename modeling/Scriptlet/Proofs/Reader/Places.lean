import Mathlib.Data.List.Flatten
import Mathlib.Data.List.Pairwise
import Mathlib.Data.List.Perm.Subperm
import Scriptlet.Proofs.Paint.Visits
import Scriptlet.Proofs.Reader.Grammar
import Scriptlet.Session

/-!
# Places in programs that were read

Two facts about trees that come out of the reader, both by induction on their derivation.

* Branches and loops declare nothing outside a block, and exactly the functions of classes are
  methods (`Stmt.Regular`).
* Expressions that stand in different places start at different offsets, so an expression, its
  span included, says where it stands: no two visits of the painting walk share a part
  (`visit_unique`).
-/

namespace Scriptlet

/-! ## Regular statements -/

namespace Stmt

/-- Statements in which declarations stand where the grammar allows them. -/
inductive Regular : Stmt → Prop
  | declare {name value constant} : Regular (.declare name value constant)
  | function {decl} : decl.isMethod = false → (∀ st ∈ decl.body, Regular st) →
      Regular (.function decl)
  | classDecl {decl} : (∀ method ∈ decl.methods, method.isMethod = true) →
      (∀ method ∈ decl.methods, ∀ st ∈ method.body, Regular st) →
      (∀ method ∈ decl.constructor, method.isMethod = true) →
      (∀ method ∈ decl.constructor, ∀ st ∈ method.body, Regular st) →
      Regular (.classDecl decl)
  | ret {span value} : Regular (.ret span value)
  | expr {e} : Regular (.expr e)
  | block {body} : (∀ st ∈ body, Regular st) → Regular (.block body)
  | branch {condition yes no} : Regular yes → yes.isPlain = true → (∀ st ∈ no, Regular st) →
      (∀ st ∈ no, st.isPlain = true) → Regular (.branch condition yes no)
  | loop {condition body} : Regular body → body.isPlain = true → Regular (.loop condition body)

/-- A statement that declares nothing leaves the scopes of the walk as they are. -/
theorem Regular.paint_of_plain {st : Stmt} (h : st.Regular) (plain : st.isPlain = true)
    (frames : Frames) : (st.paint frames).1 = frames := by
  induction h with
  | declare | function | classDecl => cases plain
  | ret | expr | block => rfl
  | @branch condition yes no _ plainYes _ plainNo ihYes ihNo =>
    have first := ihYes plainYes
    show (optionPaint (yes.paint frames).1 no).1 = frames
    rw [first]
    cases no with
    | none => rfl
    | some st => exact ihNo st rfl (plainNo st rfl)
  | loop _ plainBody ih => exact ih plainBody

end Stmt

/-- What the reader promises about a clause. -/
def Clause.Regular : Clause → Prop
  | stmt st => st.Regular
  | plain st => st.Regular ∧ st.isPlain = true
  | block body => ∀ st ∈ body, st.Regular
  | function _ isMethod decl => decl.isMethod = isMethod ∧ ∀ st ∈ decl.body, st.Regular
  | classDecl decl => Stmt.Regular (.classDecl decl)
  | members ms => ∀ decl, Member.method decl ∈ ms →
      decl.isMethod = true ∧ ∀ st ∈ decl.body, st.Regular
  | program p => ∀ st ∈ p, st.Regular

theorem ClassDecl.mem_members_of_mem_methods {name : Name} {superclass : Option Name}
    {members : List Member} {decl : FunctionDecl Stmt}
    (mem : decl ∈ (ClassDecl.ofMembers name superclass members).methods) :
    Member.method decl ∈ members := by
  obtain ⟨member, inside, same⟩ := List.mem_filterMap.1 (List.mem_filter.1 mem).1
  cases member with
  | field => cases same
  | method other =>
    cases same
    exact inside

theorem ClassDecl.mem_members_of_mem_constructor {name : Name} {superclass : Option Name}
    {members : List Member} {decl : FunctionDecl Stmt}
    (mem : decl ∈ (ClassDecl.ofMembers name superclass members).constructor) :
    Member.method decl ∈ members := by
  have last := List.mem_of_getLast? mem
  obtain ⟨member, inside, same⟩ := List.mem_filterMap.1 (List.mem_filter.1 last).1
  cases member with
  | field => cases same
  | method other =>
    cases same
    exact inside

/-- A class is regular if the methods among its members are. -/
theorem regular_ofMembers {name : Name} {superclass : Option Name} {members : List Member}
    (h : (Clause.members members).Regular) :
    Stmt.Regular (.classDecl (.ofMembers name superclass members)) :=
  .classDecl (fun decl mem => (h decl (ClassDecl.mem_members_of_mem_methods mem)).1)
    (fun decl mem => (h decl (ClassDecl.mem_members_of_mem_methods mem)).2)
    (fun decl mem => (h decl (ClassDecl.mem_members_of_mem_constructor mem)).1)
    (fun decl mem => (h decl (ClassDecl.mem_members_of_mem_constructor mem)).2)

theorem Forms.regular {mode : Mode} {s s' : Stream} {clause : Clause}
    (h : Forms mode s clause s') : clause.Regular := by
  induction h with
  | variableOnly | variableSet => exact .declare
  | function _ _ _ ih => exact .function ih.1 ih.2
  | classDecl _ _ ih => exact ih
  | plain _ ih => exact ih.1
  | block _ _ ih => exact ⟨.block ih, rfl⟩
  | branch _ _ _ _ _ _ ih => exact ⟨.branch ih.1 ih.2 nofun nofun, rfl⟩
  | branchElse _ _ _ _ _ _ _ ihYes ihNo =>
    refine ⟨.branch ihYes.1 ihYes.2 ?_ ?_, rfl⟩
    · rintro st ⟨rfl⟩
      exact ihNo.1
    · rintro st ⟨rfl⟩
      exact ihNo.2
  | loop _ _ _ _ _ ih => exact ⟨.loop ih.1 ih.2, rfl⟩
  | ret | retValue => exact ⟨.ret, rfl⟩
  | expr => exact ⟨.expr, rfl⟩
  | blockEnd | programEnd => exact nofun
  | blockStmt _ _ ih ihRest | programStmt _ _ ih ihRest =>
    intro st mem
    rcases List.mem_cons.1 mem with rfl | mem
    · exact ih
    · exact ihRest st mem
  | functionBody _ _ _ ih => exact ⟨rfl, ih⟩
  | baseClass _ _ _ ih => exact regular_ofMembers ih
  | subclass _ _ _ _ _ ih => exact regular_ofMembers ih
  | membersEnd => exact nofun
  | field _ _ _ _ _ ih =>
    intro decl mem
    rcases List.mem_cons.1 mem with same | mem
    · cases same
    · exact ih decl mem
  | method _ _ _ ih ihRest =>
    intro decl mem
    rcases List.mem_cons.1 mem with same | mem
    · cases same
      exact ih
    · exact ihRest decl mem

/-! ## Streams in the order of the text -/

namespace Stream

/-- Where the token under the position starts. -/
def offset (s : Stream) : Nat := s.here.span.start

/-- The tokens from the position on start one after the other, and an end token is among them. -/
structure Ordered (s : Stream) : Prop where
  ascending : (s.here :: s.ahead).Pairwise (·.span.start < ·.span.start)
  ends : ∃ t ∈ s.here :: s.ahead, t.kind = .eof

/-- Before the end, moving on leads to a later token. -/
theorem Ordered.advance {s : Stream} (h : s.Ordered) (more : s.kind ≠ .eof) :
    s.advance.Ordered ∧ s.offset < s.advance.offset := by
  obtain ⟨passed, here, ahead⟩ := s
  have notEnd : (Stream.mk passed here ahead).atEnd = false := by simpa [atEnd] using more
  cases ahead with
  | nil =>
    -- at the last token, which is then the end token, there is nothing to move to
    obtain ⟨t, mem, eof⟩ := h.ends
    rw [List.mem_singleton.1 mem] at eof
    exact absurd eof more
  | cons next rest =>
    have moved : (Stream.mk passed here (next :: rest)).advance = ⟨here :: passed, next, rest⟩ := by
      unfold Stream.advance
      rw [notEnd]
      rfl
    rw [moved]
    have ascending := List.pairwise_cons.1 h.ascending
    refine ⟨⟨ascending.2, ?_⟩, ascending.1 next List.mem_cons_self⟩
    obtain ⟨t, mem, eof⟩ := h.ends
    rcases List.mem_cons.1 mem with rfl | mem
    · exact absurd eof more
    · exact ⟨t, mem, eof⟩

end Stream

/-! ## Where expressions start -/

/-- A span starts in a range of offsets. -/
def Span.StartsIn (span : Span) (a b : Nat) : Prop := a ≤ span.start ∧ span.start < b

theorem Span.StartsIn.widen {span : Span} {a b a' b' : Nat} (h : span.StartsIn a b) (left : a' ≤ a)
    (right : b ≤ b') : span.StartsIn a' b' :=
  ⟨Nat.le_trans left h.1, Nat.lt_of_lt_of_le h.2 right⟩

theorem Span.StartsIn.merge {s t : Span} {a b : Nat} (hs : s.StartsIn a b) (ht : t.StartsIn a b) :
    (s.merge t).StartsIn a b :=
  ⟨Nat.le_min.2 ⟨hs.1, ht.1⟩, Nat.lt_of_le_of_lt (Nat.min_le_left _ _) hs.2⟩

/-- All parts of an expression start in a range of offsets. -/
def Expr.Within (e : Expr) (a b : Nat) : Prop := ∀ x, e.Part x → x.span.StartsIn a b

namespace Expr.Within

variable {e : Expr} {a b a' b' : Nat}

theorem widen (h : e.Within a b) (left : a' ≤ a) (right : b ≤ b') : e.Within a' b' :=
  fun x part => (h x part).widen left right

theorem span (h : e.Within a b) : e.span.StartsIn a b := h e .self

/-- An expression lies where its span and everything directly inside it lie. -/
theorem of_children (own : e.span.StartsIn a b) (inside : ∀ c ∈ e.children, c.Within a b) :
    e.Within a b := by
  intro x part
  rcases part_iff.1 part with rfl | ⟨child, mem, part⟩
  · exact own
  · exact inside child mem x part

theorem of_none (none : e.children = []) (own : e.span.StartsIn a b) : e.Within a b := by
  refine of_children own fun x mem => ?_
  rw [none] at mem
  cases mem

theorem of_one {c : Expr} (one : e.children = [c]) (own : e.span.StartsIn a b)
    (h : c.Within a b) : e.Within a b := by
  refine of_children own fun x mem => ?_
  rw [one] at mem
  rw [List.mem_singleton.1 mem]
  exact h

theorem of_two {c d : Expr} (two : e.children = [c, d]) (own : e.span.StartsIn a b)
    (hc : c.Within a b) (hd : d.Within a b) : e.Within a b := by
  refine of_children own fun x mem => ?_
  rw [two] at mem
  rcases List.mem_cons.1 mem with rfl | mem
  · exact hc
  · rw [List.mem_singleton.1 mem]
    exact hd

end Expr.Within

/-- Where a phrase lies. -/
def Phrase.Within (a b : Nat) : Phrase → Prop
  | expr _ e => e.Within a b
  | elements es close | arguments es close | someArguments es close =>
    (∀ e ∈ es, e.Within a b) ∧ close.StartsIn a b

theorem Phrase.Within.widen {p : Phrase} {a b a' b' : Nat} (h : p.Within a b) (left : a' ≤ a)
    (right : b ≤ b') : p.Within a' b' := by
  cases p with
  | expr level e => exact Expr.Within.widen h left right
  | elements es close | arguments es close | someArguments es close =>
    exact ⟨fun e mem => (h.1 e mem).widen left right, h.2.widen left right⟩

/-- A phrase lies between the positions it is derived from, and the second is the later one. -/
structure Covered (s : Stream) (p : Phrase) (s' : Stream) : Prop where
  ordered : s'.Ordered
  later : s.offset < s'.offset
  within : p.Within s.offset s'.offset

/-- The token under the position, once it is passed. -/
theorem Stream.Ordered.step {s : Stream} (h : s.Ordered) {kind : TokenKind} (here : s.kind = kind)
    (more : kind ≠ .eof := by decide) :
    s.advance.Ordered ∧ s.here.span.StartsIn s.offset s.advance.offset := by
  obtain ⟨ordered, later⟩ := h.advance (by rw [here]; exact more)
  exact ⟨ordered, Nat.le_refl _, later⟩

/-- A phrase with one token behind it. -/
theorem Covered.close {s s₁ : Stream} {p : Phrase} (h : Covered s p s₁) {kind : TokenKind}
    (here : s₁.kind = kind) (more : kind ≠ .eof := by decide) :
    s₁.advance.Ordered ∧ s.offset < s₁.advance.offset ∧ p.Within s.offset s₁.advance.offset ∧
      s₁.here.span.StartsIn s.offset s₁.advance.offset := by
  obtain ⟨ordered, start⟩ := h.ordered.step here more
  have later : s₁.offset < s₁.advance.offset := start.2
  exact ⟨ordered, Nat.lt_trans h.later later, h.within.widen (Nat.le_refl _) (Nat.le_of_lt later),
    start.widen (Nat.le_of_lt h.later) (Nat.le_refl _)⟩

/-- A token and a phrase behind it. -/
theorem Covered.open {s s' : Stream} {p : Phrase} {kind : TokenKind} (ordered : s.Ordered)
    (here : s.kind = kind) (h : s.advance.Ordered → Covered s.advance p s')
    (more : kind ≠ .eof := by decide) :
    s'.Ordered ∧ s.offset < s'.offset ∧ s.here.span.StartsIn s.offset s'.offset ∧
      p.Within s.offset s'.offset := by
  obtain ⟨ordered', start⟩ := ordered.step here more
  have h := h ordered'
  have later : s.offset < s.advance.offset := start.2
  exact ⟨h.ordered, Nat.lt_trans later h.later, start.widen (Nat.le_refl _) (Nat.le_of_lt h.later),
    h.within.widen (Nat.le_of_lt later) (Nat.le_refl _)⟩

/-- Two phrases with one token between them. -/
theorem Covered.between {s s₁ s' : Stream} {p q : Phrase} {kind : TokenKind} (hp : Covered s p s₁)
    (here : s₁.kind = kind) (hq : s₁.advance.Ordered → Covered s₁.advance q s')
    (more : kind ≠ .eof := by decide) :
    s'.Ordered ∧ s.offset < s'.offset ∧ p.Within s.offset s'.offset ∧
      q.Within s.offset s'.offset := by
  obtain ⟨ordered, later, start, within⟩ := Covered.open hp.ordered here hq more
  exact ⟨ordered, Nat.lt_trans hp.later later, hp.within.widen (Nat.le_refl _) (Nat.le_of_lt later),
    within.widen (Nat.le_of_lt hp.later) (Nat.le_refl _)⟩

open Expr.Within in
/-- What is derived lies between the positions it is derived from. -/
theorem Derives.covered {s s' : Stream} {p : Phrase} (h : Derives s p s') (ordered : s.Ordered) :
    Covered s p s' := by
  induction h with
  | literal kind value =>
    have more : ∀ {s : Stream}, s.kind = .numberLiteral ∨ s.kind = .textLiteral →
        s.kind ≠ .eof := by
      rintro s (kind | kind) <;> (rw [kind]; decide)
    obtain ⟨ordered', start⟩ := ordered.step rfl (more kind)
    exact ⟨ordered', start.2, of_none rfl start⟩
  | keyword word =>
    obtain ⟨ordered', start⟩ := ordered.step rfl (ofToken_ne rfl word)
    exact ⟨ordered', start.2, of_none rfl start⟩
  | array opened _ ih =>
    obtain ⟨ordered', later, start, elements, close⟩ := Covered.open ordered opened ih
    exact ⟨ordered', later, of_children (start.merge close) elements⟩
  | group opened _ closed ih =>
    obtain ⟨ordered', later, start, inner⟩ := Covered.open ordered opened ih
    obtain ⟨ordered', close⟩ := ordered'.step closed
    have wider := Nat.le_of_lt close.2
    refine ⟨ordered', Nat.lt_of_lt_of_le later wider, of_one rfl ?_ ?_⟩
    · exact (start.widen (Nat.le_refl _) wider).merge
        (close.widen (Nat.le_of_lt later) (Nat.le_refl _))
    · exact Expr.Within.widen inner (Nat.le_refl _) wider
  | name named =>
    obtain ⟨ordered', start⟩ := ordered.step named
    exact ⟨ordered', start.2, of_none rfl start⟩
  | field _ dot named ih =>
    have ih := ih ordered
    obtain ⟨ordered', later, target, _⟩ := ih.close dot
    obtain ⟨ordered', name⟩ := ordered'.step named
    have wider := Nat.le_of_lt name.2
    have target := Expr.Within.widen target (Nat.le_refl _) wider
    exact ⟨ordered', Nat.lt_trans later name.2, of_one rfl
      (target.span.merge (name.widen (Nat.le_of_lt later) (Nat.le_refl _))) target⟩
  | index _ opened _ closed ihTarget ihPosition =>
    obtain ⟨ordered', later, target, position⟩ := (ihTarget ordered).between opened ihPosition
    obtain ⟨ordered', close⟩ := ordered'.step closed
    have wider := Nat.le_of_lt close.2
    have target := Expr.Within.widen target (Nat.le_refl _) wider
    exact ⟨ordered', Nat.lt_trans later close.2, of_two rfl
      (target.span.merge (close.widen (Nat.le_of_lt later) (Nat.le_refl _))) target
      (Expr.Within.widen position (Nat.le_refl _) wider)⟩
  | call _ opened _ ihCallee ihArgs =>
    obtain ⟨ordered', later, callee, args, close⟩ := (ihCallee ordered).between opened ihArgs
    refine ⟨ordered', later, of_children (callee.span.merge close) ?_⟩
    intro c mem
    rcases List.mem_cons.1 mem with rfl | mem
    · exact callee
    · exact args c mem
  | assign _ equal _ ihTarget ihValue =>
    obtain ⟨ordered', later, target, value⟩ := (ihTarget ordered).between equal ihValue
    exact ⟨ordered', later, of_two rfl (target.span.merge value.span) target value⟩
  | compound _ sign _ ihTarget ihValue =>
    obtain ⟨ordered', later, target, value⟩ :=
      (ihTarget ordered).between rfl ihValue (ofToken_ne rfl sign)
    -- a compound assignment has its target twice, with the same span
    have combined := target.span.merge value.span
    exact ⟨ordered', later, of_two rfl (target.span.merge combined) target
      (of_two rfl combined target value)⟩
  | stepAfter _ step ih =>
    obtain ⟨ordered', later, operand, close⟩ := (ih ordered).close rfl (ofToken_ne rfl step)
    exact ⟨ordered', later, of_one rfl (Expr.Within.span operand |>.merge close) operand⟩
  | stepBefore step _ ih | sign step _ ih =>
    obtain ⟨ordered', later, start, operand⟩ :=
      Covered.open ordered rfl ih (ofToken_ne rfl step)
    exact ⟨ordered', later, of_one rfl (start.merge (Expr.Within.span operand)) operand⟩
  | @infixed s left s₁ op right s' _ token _ ihLeft ihRight =>
    obtain ⟨ordered', later, left, right⟩ :=
      (ihLeft ordered).between rfl ihRight (ofToken_ne rfl token)
    -- whatever the kind of the operator, its operands are its children
    refine ⟨ordered', later, of_two (by cases op <;> rfl) ?_ left right⟩
    rw [Expr.span_infixed]
    exact (Expr.Within.span left).merge (Expr.Within.span right)
  | choice _ question _ colon _ ihCondition ihYes ihNo =>
    obtain ⟨ordered', later, condition, yes⟩ := (ihCondition ordered).between question ihYes
    obtain ⟨ordered', later', _, no⟩ := Covered.open ordered' colon ihNo
    have wider := Nat.le_of_lt later'
    have condition := Expr.Within.widen condition (Nat.le_refl _) wider
    have no := Expr.Within.widen no (Nat.le_of_lt later) (Nat.le_refl _)
    refine ⟨ordered', Nat.lt_trans later later', of_children (condition.span.merge no.span) ?_⟩
    intro c mem
    simp only [Expr.children, List.mem_cons, List.not_mem_nil, or_false] at mem
    rcases mem with rfl | rfl | rfl
    · exact condition
    · exact Expr.Within.widen yes (Nat.le_refl _) wider
    · exact no
  | above _ ih =>
    have ih := ih ordered
    exact ⟨ih.ordered, ih.later, ih.within⟩
  | noElement closed | noArgument closed =>
    obtain ⟨ordered', start⟩ := ordered.step closed
    exact ⟨ordered', start.2, List.forall_mem_nil _, start⟩
  | element _ _ ih ihRest =>
    have first := ih ordered
    have rest := ihRest first.ordered
    have wider := Nat.le_of_lt rest.later
    refine ⟨rest.ordered, Nat.lt_trans first.later rest.later, ?_,
      rest.within.2.widen (Nat.le_of_lt first.later) (Nat.le_refl _)⟩
    intro c mem
    rcases List.mem_cons.1 mem with rfl | mem
    · exact Expr.Within.widen first.within (Nat.le_refl _) wider
    · exact (rest.within.1 c mem).widen (Nat.le_of_lt first.later) (Nat.le_refl _)
  | elementComma _ comma _ ih ihRest | argument _ comma _ ih ihRest =>
    obtain ⟨ordered', later, first, rest, close⟩ := (ih ordered).between comma ihRest
    refine ⟨ordered', later, ?_, close⟩
    intro c mem
    rcases List.mem_cons.1 mem with rfl | mem
    · exact first
    · exact rest c mem
  | arguments _ ih =>
    have ih := ih ordered
    exact ⟨ih.ordered, ih.later, ih.within⟩
  | lastArgument _ closed ih =>
    obtain ⟨ordered', later, e, close⟩ := (ih ordered).close closed
    refine ⟨ordered', later, ?_, close⟩
    intro c mem
    rw [List.mem_singleton.1 mem]
    exact e

/-! ## Where visits lie -/

/-- Two expressions without a common part. -/
def Expr.Apart (e f : Expr) : Prop := ∀ x, e.Part x → ¬ f.Part x

theorem Expr.Apart.symm {e f : Expr} (h : e.Apart f) : f.Apart e :=
  fun x left right => h x right left

theorem Expr.Within.apart {e f : Expr} {a b c d : Nat} (he : e.Within a b) (hf : f.Within c d)
    (order : b ≤ c) : e.Apart f := by
  intro x left right
  have before := (he x left).2
  have after := (hf x right).1
  omega

/-- Visits in a range of offsets that lie apart from each other. -/
structure Placed (vs : List Visit) (a b : Nat) : Prop where
  within : ∀ v ∈ vs, v.expr.Within a b
  apart : vs.Pairwise fun v w => v.expr.Apart w.expr

namespace Placed

variable {vs ws : List Visit} {a b c d : Nat}

theorem nil : Placed [] a b := ⟨nofun, .nil⟩

theorem single {v : Visit} (h : v.expr.Within a b) : Placed [v] a b := by
  refine ⟨?_, List.pairwise_singleton _ _⟩
  intro w mem
  rw [List.mem_singleton.1 mem]
  exact h

theorem widen (h : Placed vs a b) (left : c ≤ a) (right : b ≤ d) : Placed vs c d :=
  ⟨fun v mem => (h.within v mem).widen left right, h.apart⟩

theorem append (hv : Placed vs a b) (hw : Placed ws c d) (order : b ≤ c) (left : a ≤ c)
    (right : b ≤ d) : Placed (vs ++ ws) a d where
  within := by
    intro v mem
    rcases List.mem_append.1 mem with mem | mem
    · exact (hv.within v mem).widen (Nat.le_refl _) right
    · exact (hw.within v mem).widen left (Nat.le_refl _)
  apart := by
    refine List.pairwise_append.2 ⟨hv.apart, hw.apart, ?_⟩
    intro v first w second
    exact (hv.within v first).apart (hw.within w second) order

theorem of_subperm (h : Placed ws a b) (sub : vs.Subperm ws) : Placed vs a b := by
  obtain ⟨us, perm, sub⟩ := sub
  refine ⟨fun v mem => h.within v (sub.subset (perm.symm.subset mem)), ?_⟩
  exact (perm.pairwise_iff fun apart => apart.symm).1 (h.apart.sublist sub)

/-- Visits that lie apart and share a part are the same visit. -/
theorem unique (h : Placed vs a b) {v w : Visit} (hv : v ∈ vs) (hw : w ∈ vs) {e : Expr}
    (left : v.expr.Part e) (right : w.expr.Part e) : v = w := by
  by_contra different
  have symm : Std.Symm fun x y : Visit => x.expr.Apart y.expr := ⟨fun _ _ apart => apart.symm⟩
  exact h.apart.forall hv hw different e left right

end Placed

/-! ### Classes -/

/-- The visits in a member of a class. -/
def memberVisits (frames : Frames) : Member → List Visit
  | .field decl => [⟨decl.value, frames, none⟩]
  | .method decl => functionVisits frames decl

/-- Methods bind nothing in the scope that they share. -/
theorem functionPaint_method {decl : FunctionDecl Stmt} (method : decl.isMethod = true)
    (frames : Frames) : (functionPaint frames decl).1 = frames := by
  obtain ⟨name, params, body, isMethod⟩ := decl
  rw [functionPaint]
  exact if_pos method

theorem methodsPaint_methods {decls : List (FunctionDecl Stmt)}
    (methods : ∀ decl ∈ decls, decl.isMethod = true) (frames : Frames) :
    (methodsPaint frames decls).1 = frames := by
  induction decls with
  | nil => rfl
  | cons decl rest ih =>
    show (methodsPaint (functionPaint frames decl).1 rest).1 = frames
    rw [functionPaint_method (methods decl List.mem_cons_self)]
    exact ih fun decl mem => methods decl (List.mem_cons_of_mem _ mem)

theorem methodsVisits_methods {decls : List (FunctionDecl Stmt)}
    (methods : ∀ decl ∈ decls, decl.isMethod = true) (frames : Frames) :
    methodsVisits frames decls = decls.flatMap (functionVisits frames) := by
  induction decls with
  | nil => rfl
  | cons decl rest ih =>
    rw [methodsVisits, functionPaint_method (methods decl List.mem_cons_self),
      ih fun decl mem => methods decl (List.mem_cons_of_mem _ mem), List.flatMap_cons]

/-- The scopes in which the members of a class are looked at. -/
def ClassDecl.insideFrames (frames : Frames) (decl : ClassDecl Stmt) : Frames :=
  (frames.define .className decl.name.text).withClass decl.superclass

/-- All members of a class are looked at in the same scopes. -/
theorem classVisits_eq {decl : ClassDecl Stmt} (regular : Stmt.Regular (.classDecl decl))
    (frames : Frames) :
    classVisits frames decl = decl.members.flatMap (memberVisits (decl.insideFrames frames)) := by
  cases regular with
  | classDecl methods _ _ _ =>
    obtain ⟨name, superclass, fields, decls, constructor⟩ := decl
    have ofConstructor : constructorVisits (ClassDecl.insideFrames frames
        ⟨name, superclass, fields, decls, constructor⟩) constructor =
        constructor.toList.flatMap (functionVisits (ClassDecl.insideFrames frames
          ⟨name, superclass, fields, decls, constructor⟩)) := by
      cases constructor with
      | none => rfl
      | some decl => exact (List.append_nil _).symm
    show _ ++ methodsVisits (ClassDecl.insideFrames frames
        ⟨name, superclass, fields, decls, constructor⟩) decls ++
      constructorVisits (methodsPaint (ClassDecl.insideFrames frames
        ⟨name, superclass, fields, decls, constructor⟩) decls).1 constructor = _
    rw [methodsPaint_methods methods, methodsVisits_methods methods, ofConstructor]
    simp only [ClassDecl.members, List.flatMap_append, List.flatMap_map, memberVisits]
    rw [← List.map_eq_flatMap]
    rfl

/-- Sorting members loses at most constructors that a later one replaces. -/
theorem members_subperm (name : Name) (superclass : Option Name) (members : List Member) :
    (ClassDecl.ofMembers name superclass members).members.Subperm members := by
  have sorted : ((members.filterMap Member.field?).map Member.field ++
      (members.filterMap Member.method?).map Member.method).Perm members := by
    induction members with
    | nil => exact .nil
    | cons member rest ih =>
      cases member with
      | field decl => exact ih.cons _
      | method decl => exact List.perm_middle.trans (ih.cons _)
  refine List.Subperm.trans ?_ sorted.subperm
  rw [ClassDecl.members, List.append_assoc, ← List.map_append]
  refine (List.subperm_append_left _).2 ?_
  -- ordinary methods and the constructor are a part of all methods
  let methods := members.filterMap Member.method?
  have kept : (methods.filter (·.name.text == name.text)).getLast?.toList.Sublist
      (methods.filter (·.name.text == name.text)) := by
    cases last : (methods.filter (·.name.text == name.text)).getLast? with
    | none => exact List.nil_sublist _
    | some decl => exact List.singleton_sublist.2 (List.mem_of_getLast? last)
  have all : (methods.filter (·.name.text != name.text) ++
      methods.filter (·.name.text == name.text)).Perm methods := by
    simpa only [bne, Bool.not_not] using
      List.filter_append_perm (·.name.text != name.text) methods
  have some := (List.Sublist.append_left kept (methods.filter (·.name.text != name.text))).map
    Member.method
  exact some.subperm.trans (all.map Member.method).subperm

/-! ### Clauses -/

/-- Where the visits in a clause lie, whatever the scopes around it. -/
def Clause.Placed (a b : Nat) : Clause → Prop
  | stmt st | plain st => ∀ frames, Scriptlet.Placed (st.visits frames) a b
  | block body | program body => ∀ frames, Scriptlet.Placed (Stmt.visitsAll frames body) a b
  | function _ _ decl => ∀ frames, Scriptlet.Placed (functionVisits frames decl) a b
  | classDecl decl => ∀ frames, Scriptlet.Placed (classVisits frames decl) a b
  | members ms => ∀ frames, Scriptlet.Placed (ms.flatMap (memberVisits frames)) a b

/-- A reading that ends in order, not before it started. -/
structure Stream.Onward (s s' : Stream) : Prop where
  ordered : s'.Ordered
  later : s.offset ≤ s'.offset

theorem Stream.Onward.trans {s s₁ s' : Stream} (h : s.Onward s₁) (h' : s₁.Onward s') :
    s.Onward s' :=
  ⟨h'.ordered, Nat.le_trans h.later h'.later⟩

theorem Stream.Ordered.onward {s : Stream} (h : s.Ordered) {kind : TokenKind}
    (here : s.kind = kind) (more : kind ≠ .eof := by decide) : s.Onward s.advance :=
  ⟨(h.step here more).1, Nat.le_of_lt (h.step here more).2.2⟩

theorem Covered.onward {s s' : Stream} {p : Phrase} (h : Covered s p s') : s.Onward s' :=
  ⟨h.ordered, Nat.le_of_lt h.later⟩

theorem Terminated.onward {mode : Mode} {s s' : Stream} (h : Terminated mode s s')
    (ordered : s.Ordered) : s.Onward s' := by
  cases h with
  | written semicolon => exact ordered.onward semicolon
  | omitted _ _ => exact ⟨ordered, Nat.le_refl _⟩

theorem returnEnd_onward {mode : Mode} {s s' : Stream}
    (h : s.kind = .eof ∧ s' = s ∨ Terminated mode s s') (ordered : s.Ordered) : s.Onward s' := by
  rcases h with ⟨-, rfl⟩ | h
  · exact ⟨ordered, Nat.le_refl _⟩
  · exact h.onward ordered

theorem NamesBetween.onward {s s' : Stream} {names : List Name} (h : NamesBetween s names s')
    (ordered : s.Ordered) : s.Onward s' := by
  induction h with
  | last named _ => exact ordered.onward named
  | more named comma _ ih =>
    have first := ordered.onward named
    have second := first.ordered.onward comma
    exact (first.trans second).trans (ih second.ordered)

theorem Parameters.onward {s s' : Stream} {params : List Name} (h : Parameters s params s')
    (ordered : s.Ordered) : s.Onward s' := by
  cases h with
  | none opened closed =>
    have first := ordered.onward opened
    exact first.trans (first.ordered.onward closed)
  | some opened names closed =>
    have first := ordered.onward opened
    have second := first.trans (names.onward first.ordered)
    exact second.trans (second.ordered.onward closed)

/-- An expression behind some tokens and before others. -/
theorem Derives.placed {s s₁ s₂ s' : Stream} {level : Nat} {e : Expr}
    (h : Derives s₁ (.expr level e) s₂) (before : s.Onward s₁)
    (after : s₂.Ordered → s₂.Onward s') :
    s.Onward s' ∧ e.Within s.offset s'.offset := by
  have covered := h.covered before.ordered
  have after := after covered.ordered
  exact ⟨(before.trans covered.onward).trans after,
    Expr.Within.widen covered.within before.later after.later⟩

theorem Clause.Placed.widen {c : Clause} {a b a' b' : Nat} (h : c.Placed a b) (left : a' ≤ a)
    (right : b ≤ b') : c.Placed a' b' := by
  cases c <;> exact fun frames => (h frames).widen left right

/-- A class from its members. -/
theorem placed_ofMembers {name : Name} {superclass : Option Name} {members : List Member}
    {a b : Nat} (regular : (Clause.members members).Regular)
    (h : (Clause.members members).Placed a b) :
    (Clause.classDecl (.ofMembers name superclass members)).Placed a b := by
  intro frames
  rw [classVisits_eq (regular_ofMembers regular)]
  obtain ⟨us, perm, sub⟩ := members_subperm name superclass members
  exact (h _).of_subperm ⟨us.flatMap (memberVisits _), perm.flatMap_right _, sub.flatMap _⟩

/-- The visits in what was read lie between the positions it was read from. -/
theorem Forms.placed {mode : Mode} {s s' : Stream} {clause : Clause} (h : Forms mode s clause s')
    (ordered : s.Ordered) : s.Onward s' ∧ clause.Placed s.offset s'.offset := by
  induction h with
  | variableOnly keyword named _ ended =>
    have first := ordered.onward keyword
    have second := first.trans (first.ordered.onward named)
    exact ⟨second.trans (ended.onward second.ordered), fun _ => .nil⟩
  | @variableSet s constant _ _ _ keyword named equal value ended =>
    have first := ordered.onward keyword (by cases constant <;> decide)
    have second := first.trans (first.ordered.onward named)
    have third := second.trans (second.ordered.onward equal)
    obtain ⟨onward, within⟩ := value.placed third ended.onward
    exact ⟨onward, fun _ => .single within⟩
  | function keyword named _ ih =>
    have first := ordered.onward keyword
    have second := first.trans (first.ordered.onward named)
    obtain ⟨onward, placed⟩ := ih second.ordered
    exact ⟨second.trans onward, placed.widen second.later (Nat.le_refl _)⟩
  | classDecl keyword _ ih =>
    have first := ordered.onward keyword
    obtain ⟨onward, placed⟩ := ih first.ordered
    exact ⟨first.trans onward, placed.widen first.later (Nat.le_refl _)⟩
  | plain _ ih => exact ih ordered
  | block opened _ ih =>
    have first := ordered.onward opened
    obtain ⟨onward, placed⟩ := ih first.ordered
    exact ⟨first.trans onward, fun frames =>
      (placed frames.enter).widen first.later (Nat.le_refl _)⟩
  | branch keyword opened condition closed _ _ ih =>
    have first := ordered.onward keyword
    have second := first.trans (first.ordered.onward opened)
    obtain ⟨third, within⟩ := condition.placed second (·.onward closed)
    obtain ⟨onward, placed⟩ := ih third.ordered
    refine ⟨third.trans onward, fun frames => ?_⟩
    have visits := (Placed.single (v := ⟨_, frames, none⟩) within).append (placed frames)
      (Nat.le_refl _) third.later onward.later
    exact visits.append .nil (Nat.le_refl _) (third.trans onward).later (Nat.le_refl _)
  | branchElse keyword opened condition closed _ isElse _ ihYes ihNo =>
    have first := ordered.onward keyword
    have second := first.trans (first.ordered.onward opened)
    obtain ⟨third, within⟩ := condition.placed second (·.onward closed)
    obtain ⟨onYes, placedYes⟩ := ihYes third.ordered
    have elseAt := onYes.ordered.onward isElse
    obtain ⟨onNo, placedNo⟩ := ihNo elseAt.ordered
    have front := third.trans (onYes.trans elseAt)
    refine ⟨front.trans onNo, fun frames => ?_⟩
    -- the walk comes to the second part with other frames, but at a later place
    have visits := (Placed.single (v := ⟨_, frames, none⟩) within).append (placedYes frames)
      (Nat.le_refl _) third.later onYes.later
    exact visits.append (placedNo _) elseAt.later front.later
      (Nat.le_trans elseAt.later onNo.later)
  | loop keyword opened condition closed _ ih =>
    have first := ordered.onward keyword
    have second := first.trans (first.ordered.onward opened)
    obtain ⟨third, within⟩ := condition.placed second (·.onward closed)
    obtain ⟨onward, placed⟩ := ih third.ordered
    exact ⟨third.trans onward, fun frames => (Placed.single (v := ⟨_, frames, none⟩) within).append
      (placed frames) (Nat.le_refl _) third.later onward.later⟩
  | ret keyword _ ended =>
    have first := ordered.onward keyword
    exact ⟨first.trans (returnEnd_onward ended first.ordered), fun _ => .nil⟩
  | retValue keyword value ended =>
    have first := ordered.onward keyword
    obtain ⟨onward, within⟩ := value.placed first (returnEnd_onward ended)
    exact ⟨onward, fun _ => .single within⟩
  | expr e ended =>
    obtain ⟨onward, within⟩ := e.placed ⟨ordered, Nat.le_refl _⟩ ended.onward
    exact ⟨onward, fun _ => .single within⟩
  | blockEnd closed | membersEnd closed =>
    exact ⟨ordered.onward closed, fun _ => .nil⟩
  | programEnd => exact ⟨⟨ordered, Nat.le_refl _⟩, fun _ => .nil⟩
  | blockStmt _ _ ih ihRest | programStmt _ _ ih ihRest =>
    obtain ⟨first, placed⟩ := ih ordered
    obtain ⟨second, placedRest⟩ := ihRest first.ordered
    exact ⟨first.trans second, fun frames => (placed frames).append (placedRest _) (Nat.le_refl _)
      first.later second.later⟩
  | functionBody params opened _ ih =>
    have first := params.onward ordered
    have second := first.trans (first.ordered.onward opened)
    obtain ⟨onward, placed⟩ := ih second.ordered
    exact ⟨second.trans onward, fun frames =>
      (placed _).widen second.later (Nat.le_refl _)⟩
  | baseClass named opened members ih =>
    have first := ordered.onward named
    have second := first.trans (first.ordered.onward opened)
    obtain ⟨onward, placed⟩ := ih second.ordered
    exact ⟨second.trans onward,
      (placed_ofMembers members.regular placed).widen second.later (Nat.le_refl _)⟩
  | subclass named colon parent opened members ih =>
    have first := ordered.onward named
    have second := first.trans (first.ordered.onward colon)
    have third := second.trans (second.ordered.onward parent)
    have fourth := third.trans (third.ordered.onward opened)
    obtain ⟨onward, placed⟩ := ih fourth.ordered
    exact ⟨fourth.trans onward,
      (placed_ofMembers members.regular placed).widen fourth.later (Nat.le_refl _)⟩
  | field named equal value ended _ ih =>
    have first := ordered.onward named
    have second := first.trans (first.ordered.onward equal)
    obtain ⟨third, within⟩ := value.placed second ended.onward
    obtain ⟨onward, placed⟩ := ih third.ordered
    exact ⟨third.trans onward, fun frames => (Placed.single (v := ⟨_, frames, none⟩) within).append
      (placed frames) (Nat.le_refl _) third.later onward.later⟩
  | method named _ _ ih ihRest =>
    have first := ordered.onward named
    obtain ⟨second, placed⟩ := ih first.ordered
    obtain ⟨third, placedRest⟩ := ihRest second.ordered
    have front := first.trans second
    exact ⟨front.trans third, fun frames =>
      ((placed frames).widen first.later (Nat.le_refl _)).append (placedRest frames)
        (Nat.le_refl _) front.later third.later⟩

/-! ## Texts -/

/-- Tokens that start one after the other, none of them before `pos`, and end with an end token. -/
structure Laid (tokens : List Token) (pos : Nat) : Prop where
  ascending : tokens.Pairwise (·.span.start < ·.span.start)
  after : ∀ t ∈ tokens, pos ≤ t.span.start
  ends : ∃ front last, last.kind = .eof ∧ tokens = front ++ [last]

theorem laid_scanFrom (cs : List Char) (pos line : Nat) :
    Laid (Scanned.tokens (scanFrom cs pos line)) pos := by
  fun_induction scanFrom cs pos line with
  | case1 pos line =>
    refine ⟨List.pairwise_singleton _ _, ?_, [], _, rfl, rfl⟩
    intro t mem
    rw [List.mem_singleton.1 mem]
    exact Nat.le_refl _
  | case2 pos line c rest _ ih =>
    exact ⟨ih.ascending, fun t mem => Nat.le_of_succ_le (ih.after t mem), ih.ends⟩
  | case3 pos line c rest _ _ ih =>
    rw [Scanned.tokens_record]
    exact ⟨ih.ascending, fun t mem => Nat.le_of_succ_le (ih.after t mem), ih.ends⟩
  | case4 pos line c rest _ kind more _ lexeme token ih =>
    -- a token is never empty, so the next one starts later
    have longer : pos < pos + lexeme.length := Nat.lt_add_of_pos_right (Nat.succ_pos _)
    obtain ⟨front, last, eof, same⟩ := ih.ends
    refine ⟨List.pairwise_cons.2 ⟨?_, ih.ascending⟩, ?_, token :: front, last, eof, ?_⟩
    · intro t mem
      exact Nat.lt_of_lt_of_le longer (ih.after t mem)
    · intro t mem
      rcases List.mem_cons.1 mem with rfl | mem
      · exact Nat.le_refl _
      · exact Nat.le_trans (Nat.le_of_lt longer) (ih.after t mem)
    · exact congrArg (token :: ·) same

/-- The stream over the tokens of a text is in the order of the text. -/
theorem Laid.ordered_ofTokens {tokens : List Token} {pos : Nat} (h : Laid tokens pos) :
    (Stream.ofTokens tokens).Ordered := by
  obtain ⟨front, last, eof, rfl⟩ := h.ends
  have filtered : (front ++ [last]).filter (!·.kind.isTrivia) =
      front.filter (!·.kind.isTrivia) ++ [last] := by
    rw [List.filter_append, List.filter_singleton, eof]
    rfl
  have ascending := h.ascending.filter (!·.kind.isTrivia)
  rw [filtered] at ascending
  have kept : Stream.withEnd (front.filter (!·.kind.isTrivia) ++ [last]) =
      front.filter (!·.kind.isTrivia) ++ [last] := by
    rw [Stream.withEnd, List.getLast?_concat]
    simp only [eof, if_true]
  unfold Stream.ofTokens
  rw [filtered, kept]
  generalize front.filter (!·.kind.isTrivia) = visible at ascending ⊢
  cases visible with
  | nil => exact ⟨List.pairwise_singleton _ _, last, List.mem_cons_self, eof⟩
  | cons t rest =>
    exact ⟨ascending, last, List.mem_append_right (t :: rest) List.mem_cons_self, eof⟩

/-- A text that was scanned and read without problems forms its program. -/
theorem forms_of_clean {mode : Mode} {text : String}
    (clean : (Source.ofText mode text).diagnostics = []) :
    ∃ s s', s.Ordered ∧ Forms mode s (.program (Source.ofText mode text).statements) s' := by
  obtain ⟨-, noErrors⟩ := Source.diagnostics_eq_nil.1 clean
  obtain ⟨s', formed⟩ := forms_of_ofStream noErrors
  exact ⟨_, s', (laid_scanFrom text.toList 0 1).ordered_ofTokens, formed⟩

theorem regular_of_clean {mode : Mode} {text : String}
    (clean : (Source.ofText mode text).diagnostics = []) :
    ∀ st ∈ (Source.ofText mode text).statements, st.Regular := by
  obtain ⟨s, s', -, formed⟩ := forms_of_clean clean
  exact formed.regular

/-- An expression of a program that was read without problems is visited once. -/
theorem visit_unique {mode : Mode} {text : String}
    (clean : (Source.ofText mode text).diagnostics = []) {v w : Visit}
    (hv : v ∈ programVisits (Source.ofText mode text).statements)
    (hw : w ∈ programVisits (Source.ofText mode text).statements) {e : Expr}
    (left : v.expr.Part e) (right : w.expr.Part e) : v = w := by
  obtain ⟨s, s', ordered, formed⟩ := forms_of_clean clean
  exact ((formed.placed ordered).2 [Dict.empty]).unique hv hw left right

end Scriptlet
