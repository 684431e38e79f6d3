import Scriptlet.Proofs.Fault.Code
import Scriptlet.Proofs.Reader.Sentence
import Scriptlet.Proofs.Token.Coverage

/-!
# Spans of trees that were read

The spans of a tree come from the spans of tokens, by merging. So whatever holds of the spans of all
tokens, and of two merged spans if it holds of both, holds of all places of a program that was read
(`Forms.spans`). The property of interest is to lie in the text.
-/

namespace Scriptlet

/-- A property of spans that survives merging. -/
def Span.MergeClosed (Q : Span → Prop) : Prop := ∀ s t, Q s → Q t → Q (s.merge t)

/-- All tokens of a stream have spans with a property. -/
def Stream.Spans (Q : Span → Prop) (s : Stream) : Prop := ∀ t ∈ s.tokens, Q t.span

namespace Stream.Spans

variable {Q : Span → Prop} {s : Stream}

theorem here (h : s.Spans Q) : Q s.here.span :=
  h _ (List.mem_append_right _ List.mem_cons_self)

theorem advance (h : s.Spans Q) : s.advance.Spans Q := by
  unfold Stream.Spans
  rw [s.tokens_advance]
  exact h

end Stream.Spans

/-! ## Expressions -/

/-- The spans in a phrase have a property. -/
def Phrase.Spans (Q : Span → Prop) : Phrase → Prop
  | expr _ e => ∀ x ∈ e.places, Q x
  | elements es close | arguments es close | someArguments es close =>
    (∀ x ∈ Expr.placesAll es, Q x) ∧ Q close

section
variable {Q : Span → Prop}

/-- An expression whose own span is put together from two. -/
theorem Expr.spans_of_merge (closed : Span.MergeClosed Q) {s t : Span} {inside : List Span}
    (left : Q s) (right : Q t) (h : ∀ x ∈ inside, Q x) : ∀ x ∈ s.merge t :: inside, Q x :=
  List.forall_mem_cons.2 ⟨closed s t left right, h⟩

theorem Expr.spans_assigned (closed : Span.MergeClosed Q) {target value : Expr}
    (left : ∀ x ∈ target.places, Q x) (right : ∀ x ∈ value.places, Q x) :
    ∀ x ∈ (Expr.assigned target value).places, Q x :=
  spans_of_merge closed (left _ target.span_mem_places) (right _ value.span_mem_places)
    (List.forall_mem_append.2 ⟨left, right⟩)

theorem Expr.spans_infixed (closed : Span.MergeClosed Q) (op : Infix) {left right : Expr}
    (hl : ∀ x ∈ left.places, Q x) (hr : ∀ x ∈ right.places, Q x) :
    ∀ x ∈ (Expr.infixed op left right).places, Q x := by
  -- an operator and a logical connective are put together in the same way
  have merged := spans_of_merge closed (hl _ left.span_mem_places) (hr _ right.span_mem_places)
    (List.forall_mem_append.2 ⟨hl, hr⟩)
  cases op <;> exact merged

/-- Deriving a phrase keeps the tokens, and the spans in it come from theirs. -/
theorem Derives.spans (closed : Span.MergeClosed Q) {s s' : Stream} {p : Phrase}
    (h : Derives s p s') (spans : s.Spans Q) : s'.Spans Q ∧ p.Spans Q := by
  induction h with
  | literal | keyword =>
    exact ⟨spans.advance, List.forall_mem_singleton.2 spans.here⟩
  | name => exact ⟨spans.advance, List.forall_mem_singleton.2 spans.here⟩
  | array _ _ ih =>
    obtain ⟨after, elements, close⟩ := ih spans.advance
    exact ⟨after, Expr.spans_of_merge closed spans.here close elements⟩
  | group _ _ _ ih =>
    obtain ⟨after, inner⟩ := ih spans.advance
    exact ⟨after.advance, Expr.spans_of_merge closed spans.here after.here inner⟩
  | field _ _ _ ih =>
    obtain ⟨after, target⟩ := ih spans
    have name := after.advance.here
    refine ⟨after.advance.advance, Expr.spans_of_merge closed ?_ name ?_⟩
    · exact target _ (Expr.span_mem_places _)
    · exact List.forall_mem_cons.2 ⟨name, target⟩
  | index _ _ _ _ ih ihPosition =>
    obtain ⟨after, target⟩ := ih spans
    obtain ⟨after', position⟩ := ihPosition after.advance
    refine ⟨after'.advance, Expr.spans_of_merge closed ?_ after'.here ?_⟩
    · exact target _ (Expr.span_mem_places _)
    · exact List.forall_mem_append.2 ⟨target, position⟩
  | call _ _ _ ih ihArgs =>
    obtain ⟨after, callee⟩ := ih spans
    obtain ⟨after', args, close⟩ := ihArgs after.advance
    refine ⟨after', Expr.spans_of_merge closed ?_ close ?_⟩
    · exact callee _ (Expr.span_mem_places _)
    · exact List.forall_mem_append.2 ⟨callee, args⟩
  | assign _ _ _ ih ihValue =>
    obtain ⟨after, target⟩ := ih spans
    obtain ⟨after', value⟩ := ihValue after.advance
    exact ⟨after', Expr.spans_assigned closed target value⟩
  | compound _ _ _ ih ihValue =>
    obtain ⟨after, target⟩ := ih spans
    obtain ⟨after', value⟩ := ihValue after.advance
    -- the value of the assignment is the target combined with what is written
    refine ⟨after', Expr.spans_assigned closed target ?_⟩
    refine Expr.spans_of_merge closed ?_ ?_ (List.forall_mem_append.2 ⟨target, value⟩)
    · exact target _ (Expr.span_mem_places _)
    · exact value _ (Expr.span_mem_places _)
  | stepAfter _ _ ih =>
    obtain ⟨after, operand⟩ := ih spans
    refine ⟨after.advance, Expr.spans_of_merge closed ?_ after.here operand⟩
    exact operand _ (Expr.span_mem_places _)
  | stepBefore _ _ ih | sign _ _ ih =>
    obtain ⟨after, operand⟩ := ih spans.advance
    refine ⟨after, Expr.spans_of_merge closed spans.here ?_ operand⟩
    exact operand _ (Expr.span_mem_places _)
  | infixed _ _ _ ih ihRight =>
    obtain ⟨after, left⟩ := ih spans
    obtain ⟨after', right⟩ := ihRight after.advance
    exact ⟨after', Expr.spans_infixed closed _ left right⟩
  | choice _ _ _ _ _ ih ihYes ihNo =>
    obtain ⟨after, condition⟩ := ih spans
    obtain ⟨after', yes⟩ := ihYes after.advance
    obtain ⟨after'', no⟩ := ihNo after'.advance
    refine ⟨after'', Expr.spans_of_merge closed ?_ ?_ ?_⟩
    · exact condition _ (Expr.span_mem_places _)
    · exact no _ (Expr.span_mem_places _)
    · exact List.forall_mem_append.2 ⟨condition, List.forall_mem_append.2 ⟨yes, no⟩⟩
  | above _ ih => exact ih spans
  | noElement | noArgument => exact ⟨spans.advance, nofun, spans.here⟩
  | element _ _ ih ihRest =>
    obtain ⟨after, e⟩ := ih spans
    obtain ⟨after', rest, close⟩ := ihRest after
    exact ⟨after', List.forall_mem_append.2 ⟨e, rest⟩, close⟩
  | elementComma _ _ _ ih ihRest | argument _ _ _ ih ihRest =>
    obtain ⟨after, e⟩ := ih spans
    obtain ⟨after', rest, close⟩ := ihRest after.advance
    exact ⟨after', List.forall_mem_append.2 ⟨e, rest⟩, close⟩
  | arguments _ ih => exact ih spans
  | lastArgument _ _ ih =>
    obtain ⟨after, e⟩ := ih spans
    exact ⟨after.advance, List.forall_mem_append.2 ⟨e, nofun⟩, after.here⟩

/-! ## Statements -/

theorem Terminated.spans {mode : Mode} {s s' : Stream} (h : Terminated mode s s')
    (spans : s.Spans Q) : s'.Spans Q := by
  cases h with
  | written => exact spans.advance
  | omitted => exact spans

theorem returnEnd_spans {mode : Mode} {s s' : Stream}
    (h : s.kind = .eof ∧ s' = s ∨ Terminated mode s s') (spans : s.Spans Q) : s'.Spans Q := by
  rcases h with ⟨-, rfl⟩ | ended
  · exact spans
  · exact ended.spans spans

theorem NamesBetween.spans {s s' : Stream} {names : List Name} (h : NamesBetween s names s')
    (spans : s.Spans Q) : s'.Spans Q := by
  induction h with
  | last => exact spans.advance
  | more _ _ _ ih => exact ih spans.advance.advance

theorem Parameters.spans {s s' : Stream} {params : List Name} (h : Parameters s params s')
    (spans : s.Spans Q) : s'.Spans Q := by
  cases h with
  | none => exact spans.advance.advance
  | some _ names _ => exact (names.spans spans.advance).advance

/-- The places in a member of a class. -/
def Member.places : Member → List Span
  | field decl => decl.value.places
  | method decl => functionPlaces decl

/-- The spans in a clause have a property. -/
def Clause.Spans (Q : Span → Prop) : Clause → Prop
  | stmt st | plain st => ∀ x ∈ st.places, Q x
  | block body => ∀ x ∈ Stmt.placesAll body, Q x
  | function _ _ decl => ∀ x ∈ functionPlaces decl, Q x
  | classDecl decl => ∀ x ∈ classPlaces decl, Q x
  | members ms => ∀ m ∈ ms, ∀ x ∈ m.places, Q x
  | program p => ∀ x ∈ programPlaces p, Q x

theorem methods_spans {decls : List (FunctionDecl Stmt)}
    (h : ∀ decl ∈ decls, ∀ x ∈ functionPlaces decl, Q x) : ∀ x ∈ methodsPlaces decls, Q x := by
  induction decls with
  | nil => exact nofun
  | cons decl rest ih =>
    obtain ⟨first, others⟩ := List.forall_mem_cons.1 h
    exact List.forall_mem_append.2 ⟨first, ih others⟩

/-- The places of a class are those of its members and the name of its superclass. -/
theorem spans_ofMembers {name : Name} {superclass : Option Name} {members : List Member}
    (named : ∀ parent ∈ superclass, Q parent.span) (h : (Clause.members members).Spans Q) :
    (Clause.classDecl (.ofMembers name superclass members)).Spans Q := by
  show ∀ x ∈ classPlaces (.ofMembers name superclass members), Q x
  rw [classPlaces_eq]
  simp only [ClassDecl.memberPlaces, List.forall_mem_append]
  refine ⟨?_, ?_, ?_, ?_⟩
  · intro x mem
    obtain ⟨parent, inside, rfl⟩ := List.mem_map.1 mem
    exact named parent (Option.mem_toList.1 inside)
  · intro x mem
    obtain ⟨field, inside, mem⟩ := List.mem_flatMap.1 mem
    obtain ⟨member, inside, same⟩ := List.mem_filterMap.1 inside
    cases member with
    | field decl =>
      cases same
      exact h _ inside x mem
    | method decl => cases same
  · refine methods_spans fun decl mem => ?_
    exact h _ (ClassDecl.mem_members_of_mem_methods mem)
  · cases declared : (ClassDecl.ofMembers name superclass members).constructor with
    | none =>
      intro x mem
      cases mem
    | some decl => exact h _ (ClassDecl.mem_members_of_mem_constructor declared)

/-- **The spans of what was read come from its tokens.** -/
theorem Forms.spans (closed : Span.MergeClosed Q) {mode : Mode} {s s' : Stream} {clause : Clause}
    (h : Forms mode s clause s') (spans : s.Spans Q) : s'.Spans Q ∧ clause.Spans Q := by
  induction h with
  | variableOnly _ _ _ ended => exact ⟨ended.spans spans.advance.advance, nofun⟩
  | variableSet _ _ _ derived ended =>
    obtain ⟨after, value⟩ := derived.spans closed spans.advance.advance.advance
    refine ⟨ended.spans after, fun x mem => value x ?_⟩
    simpa [Stmt.places] using mem
  | function _ _ _ ih => exact ih spans.advance.advance
  | classDecl _ _ ih | block _ _ ih => exact ih spans.advance
  | plain _ ih => exact ih spans
  | branch _ _ derived _ _ _ ih =>
    obtain ⟨after, condition⟩ := derived.spans closed spans.advance.advance
    obtain ⟨after', yes⟩ := ih after.advance
    exact ⟨after', List.forall_mem_append.2 ⟨condition, List.forall_mem_append.2 ⟨yes, nofun⟩⟩⟩
  | branchElse _ _ derived _ _ _ _ ih ihNo =>
    obtain ⟨after, condition⟩ := derived.spans closed spans.advance.advance
    obtain ⟨after', yes⟩ := ih after.advance
    obtain ⟨after'', no⟩ := ihNo after'.advance
    exact ⟨after'', List.forall_mem_append.2 ⟨condition, List.forall_mem_append.2 ⟨yes, no⟩⟩⟩
  | loop _ _ derived _ _ ih =>
    obtain ⟨after, condition⟩ := derived.spans closed spans.advance.advance
    obtain ⟨after', body⟩ := ih after.advance
    exact ⟨after', List.forall_mem_append.2 ⟨condition, body⟩⟩
  | ret _ _ ended =>
    exact ⟨returnEnd_spans ended spans.advance, List.forall_mem_singleton.2 spans.here⟩
  | @retValue s e s₁ s' _ derived ended =>
    obtain ⟨after, value⟩ := derived.spans closed spans.advance
    refine ⟨returnEnd_spans ended after, Expr.spans_of_merge closed spans.here ?_ ?_⟩
    · exact value _ e.span_mem_places
    · intro x mem
      exact value x (by simpa using mem)
  | expr derived ended =>
    obtain ⟨after, e⟩ := derived.spans closed spans
    exact ⟨ended.spans after, e⟩
  | blockEnd => exact ⟨spans.advance, nofun⟩
  | programEnd => exact ⟨spans, nofun⟩
  | blockStmt _ _ ih ihRest | programStmt _ _ ih ihRest =>
    obtain ⟨after, st⟩ := ih spans
    obtain ⟨after', rest⟩ := ihRest after
    exact ⟨after', List.forall_mem_append.2 ⟨st, rest⟩⟩
  | functionBody params _ _ ih => exact ih (params.spans spans).advance
  | baseClass _ _ _ ih =>
    obtain ⟨after, members⟩ := ih spans.advance.advance
    exact ⟨after, spans_ofMembers nofun members⟩
  | subclass _ _ _ _ _ ih =>
    obtain ⟨after, members⟩ := ih spans.advance.advance.advance.advance
    refine ⟨after, spans_ofMembers ?_ members⟩
    rintro parent ⟨rfl⟩
    exact spans.advance.advance.here
  | membersEnd => exact ⟨spans.advance, nofun⟩
  | field _ _ derived ended _ ihRest =>
    obtain ⟨after, value⟩ := derived.spans closed spans.advance.advance
    obtain ⟨after', rest⟩ := ihRest (ended.spans after)
    exact ⟨after', List.forall_mem_cons.2 ⟨value, rest⟩⟩
  | method _ _ _ ih ihRest =>
    obtain ⟨after, decl⟩ := ih spans.advance
    obtain ⟨after', rest⟩ := ihRest after
    exact ⟨after', List.forall_mem_cons.2 ⟨decl, rest⟩⟩

end

/-! ## Texts -/

/-- A span of a text of some length. -/
def Span.Fits (length : Nat) (s : Span) : Prop := s.start ≤ s.stop ∧ s.stop ≤ length

theorem Span.fits_merge (length : Nat) : Span.MergeClosed (Span.Fits length) := by
  intro s t hs ht
  refine ⟨?_, Nat.max_le.2 ⟨hs.2, ht.2⟩⟩
  exact Nat.le_trans (s.start_merge_le t) (Nat.le_trans hs.1 (s.stop_le_merge t))

/-- The tokens of a text lie in it. -/
theorem fits_of_mem_scan {text : String} {t : Token} (mem : t ∈ Scanned.tokens (scan text)) :
    t.span.Fits text.length := by
  by_cases eof : t.kind = .eof
  · obtain ⟨body, line, same, inside⟩ := ends_scanFrom text.toList 0 1
    have mem : t ∈ body ++ [.ending line (0 + text.toList.length)] := same ▸ mem
    rcases List.mem_append.1 mem with mem | mem
    · exact absurd eof (inside t mem)
    · rw [List.mem_singleton.1 mem, Nat.zero_add, String.length_toList]
      exact ⟨Nat.le_refl _, Nat.le_refl _⟩
  · obtain ⟨longer, inside, -⟩ := (cutFrom_of_mem_scanFrom mem eof).piece
    exact ⟨Nat.le_of_lt longer, inside⟩

/-- The tokens of a text that are read: all but the comments. -/
def readTokens (text : String) : List Token :=
  (Scanned.tokens (scan text)).filter (!·.kind.isTrivia)

/-- A scan ends with an end token, so the stream over it adds none of its own. -/
theorem tokens_ofTokens_scan (text : String) :
    (Stream.ofTokens (Scanned.tokens (scan text))).tokens = readTokens text := by
  obtain ⟨body, line, same, -⟩ := ends_scanFrom text.toList 0 1
  have visible : readTokens text =
      body.filter (!·.kind.isTrivia) ++ [.ending line (0 + text.toList.length)] := by
    rw [readTokens, show Scanned.tokens (scan text) = _ from same, List.filter_append]
    rfl
  rw [tokens_ofTokens, ← readTokens, visible, Stream.withEnd, List.getLast?_concat]
  rfl

/-- The stream over the tokens of a text holds no others. -/
theorem mem_scan_of_mem_stream {text : String} {t : Token}
    (mem : t ∈ (Stream.ofTokens (Scanned.tokens (scan text))).tokens) :
    t ∈ Scanned.tokens (scan text) := by
  rw [tokens_ofTokens_scan] at mem
  exact List.mem_of_mem_filter mem

/-- The places of a program that was read without problems lie in its text. -/
theorem fits_of_clean {mode : Mode} {text : String}
    (clean : (Source.ofText mode text).diagnostics = []) :
    ∀ s ∈ programPlaces (Source.ofText mode text).statements, s.Fits text.length := by
  obtain ⟨-, noErrors⟩ := Source.diagnostics_eq_nil.1 clean
  obtain ⟨s', formed⟩ := forms_of_ofStream noErrors
  exact (formed.spans (Span.fits_merge _) fun t mem =>
    fits_of_mem_scan (mem_scan_of_mem_stream mem)).2

end Scriptlet
