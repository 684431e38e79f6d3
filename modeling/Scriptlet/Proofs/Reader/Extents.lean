import Scriptlet.Proofs.Reader.Blame
import Scriptlet.Proofs.Reader.Pieces

/-!
# Extents of trees that were read

The reader merges the spans of operands, of brackets and of closing tokens in many ways. All of them
come to the same: an expression extends from the start of the first token it is written with to the
end of the last one. This is an induction on the grammar over tokens that lie one after the other
(`Phrase.Yields.extent`), and what is written inside something is written with a stretch of its
tokens (`Expr.Takes.child`), so it also lies inside it. `extents_exact` says so of everything in the
statements that come out of a text, with problems or without.
-/

namespace Scriptlet

/-! ## Tokens one after the other -/

/-- Tokens that lie one after the other. -/
structure TokensInOrder (ts : List Token) : Prop where
  apart : ts.Pairwise fun t u => t.span.stop ≤ u.span.start
  proper : ∀ t ∈ ts, t.span.start ≤ t.span.stop

/-- The span extends from the start of the first token to the end of the last. -/
def Span.Extends (span : Span) (ts : List Token) : Prop :=
  ∃ first ∈ ts.head?, ∃ last ∈ ts.getLast?, span = ⟨first.span.start, last.span.stop⟩

/-- The span lies inside another. -/
def Span.Inside (inner outer : Span) : Prop :=
  outer.start ≤ inner.start ∧ inner.stop ≤ outer.stop

/-- What follows a token is the last part of the list. -/
theorem suffix_after (ts : List Token) (t : Token) (us : List Token) : us <:+ ts ++ t :: us :=
  ⟨ts ++ [t], by simp⟩

theorem mem_head?_of_prefix {ts us : List Token} {t : Token} (front : us <+: ts)
    (head : t ∈ us.head?) : t ∈ ts.head? := by
  obtain ⟨rest, rfl⟩ := front
  rw [Option.mem_def] at head
  simp [head]

theorem mem_getLast?_of_suffix {ts us : List Token} {t : Token} (back : us <:+ ts)
    (tail : t ∈ us.getLast?) : t ∈ ts.getLast? := by
  obtain ⟨rest, rfl⟩ := back
  rw [Option.mem_def] at tail
  simp [tail]

namespace TokensInOrder

variable {ts us : List Token} {t first last : Token}

theorem sublist (h : TokensInOrder ts) (sub : us.Sublist ts) : TokensInOrder us :=
  ⟨h.apart.sublist sub, fun t mem => h.proper t (sub.subset mem)⟩

/-- No token starts before the first one. -/
theorem first_le (h : TokensInOrder ts) (head : first ∈ ts.head?) (mem : t ∈ ts) :
    first.span.start ≤ t.span.start := by
  obtain ⟨rest, rfl⟩ := List.head?_eq_some_iff.1 head
  rcases List.mem_cons.1 mem with rfl | later
  · exact Nat.le_refl _
  · have before := (List.pairwise_cons.1 h.apart).1 t later
    exact Nat.le_trans (h.proper first List.mem_cons_self) before

/-- No token ends behind the last one. -/
theorem le_last (h : TokensInOrder ts) (tail : last ∈ ts.getLast?) (mem : t ∈ ts) :
    t.span.stop ≤ last.span.stop := by
  obtain ⟨front, rfl⟩ := List.getLast?_eq_some_iff.1 tail
  rcases List.mem_append.1 mem with earlier | same
  · have behind := (List.pairwise_append.1 h.apart).2.2 t earlier last List.mem_cons_self
    exact Nat.le_trans behind (h.proper last (by simp))
  · exact Nat.le_of_eq (List.mem_singleton.1 same ▸ rfl)

end TokensInOrder

/-- Merging with a later span, which starts and ends later. -/
theorem Span.merge_later {s t : Span} (left : s.start ≤ t.start) (right : s.stop ≤ t.stop) :
    s.merge t = ⟨s.start, t.stop⟩ := by
  rw [Span.merge, Nat.min_eq_left left, Nat.max_eq_right right]

namespace Span.Extends

variable {s t : Span} {ts us vs : List Token}

theorem token (t : Token) : t.span.Extends [t] := ⟨t, rfl, t, rfl, rfl⟩

/-- Merging the extent of the first tokens and that of the last ones gives the extent of all. -/
theorem merge (hs : s.Extends us) (ht : t.Extends vs) (front : us <+: ts) (back : vs <:+ ts)
    (ordered : TokensInOrder ts) : (s.merge t).Extends ts := by
  obtain ⟨first, head, last', inner', rfl⟩ := hs
  obtain ⟨first', inner, last, tail, rfl⟩ := ht
  have head := mem_head?_of_prefix front head
  have tail := mem_getLast?_of_suffix back tail
  refine ⟨first, head, last, tail, ?_⟩
  have left := ordered.first_le head (back.subset (List.mem_of_head? inner))
  have right := ordered.le_last tail (front.subset (List.mem_of_getLast? inner'))
  exact Span.merge_later left right

/-- What extends over a stretch of the tokens lies inside what extends over all of them. -/
theorem inside (hs : s.Extends us) (ht : t.Extends ts) (stretch : us <:+: ts)
    (ordered : TokensInOrder ts) : s.Inside t := by
  obtain ⟨first', inner, last', inner', rfl⟩ := hs
  obtain ⟨first, head, last, tail, rfl⟩ := ht
  exact ⟨ordered.first_le head (stretch.subset (List.mem_of_head? inner)),
    ordered.le_last tail (stretch.subset (List.mem_of_getLast? inner'))⟩

/-- What extends over tokens of a text lies in the text. -/
theorem fits {length : Nat} (h : s.Extends ts) (ordered : TokensInOrder ts)
    (inText : ∀ t ∈ ts, t.span.Fits length) : s.Fits length := by
  obtain ⟨first, head, last, tail, rfl⟩ := h
  have mem := List.mem_of_getLast? tail
  exact ⟨Nat.le_trans (ordered.first_le head mem) (ordered.proper last mem), (inText last mem).2⟩

end Span.Extends

/-! ## Phrases -/

/-- An expression extends over its tokens, and a list is closed by the last of them. -/
def Phrase.Extends (ts : List Token) : Phrase → Prop
  | expr _ e => e.span.Extends ts
  | elements _ close | arguments _ close | someArguments _ close =>
    ∃ t, [t] <:+ ts ∧ close = t.span

section
variable {p : Phrase} {ts : List Token}

/-- **A phrase extends from its first token to its last**, whichever production it comes from. -/
theorem Phrase.Yields.extent (h : p.Yields ts) (ordered : TokensInOrder ts) : p.Extends ts := by
  induction h with
  | @literal t | @keyword t | @name t => exact .token t
  | @array t _ _ _ _ _ ih =>
    obtain ⟨u, last, rfl⟩ := ih (ordered.sublist (by simp))
    exact .merge (.token t) (.token u) (by simp) (last.trans (by simp)) ordered
  | @group t _ _ u => exact .merge (.token t) (.token u) (by simp) (by simp) ordered
  | @field _ _ _ u _ _ _ ih =>
    have target := ih (ordered.sublist (by simp))
    exact .merge target (.token u) (by simp) (suffix_after ..) ordered
  | @index _ ts t _ us u _ _ _ _ ih =>
    have target := ih (ordered.sublist (by simp))
    exact .merge target (.token u) (by simp) ⟨ts ++ t :: us, by simp⟩ ordered
  | call _ _ _ ih ihArgs =>
    have callee := ih (ordered.sublist (by simp))
    obtain ⟨u, last, rfl⟩ := ihArgs (ordered.sublist (by simp))
    exact .merge callee (.token u) (by simp) (last.trans (suffix_after ..)) ordered
  | assign _ _ _ ih ihValue =>
    have target := ih (ordered.sublist (by simp))
    have value := ihValue (ordered.sublist (by simp))
    exact .merge target value (by simp) (suffix_after ..) ordered
  | compound _ _ _ ih ihValue =>
    have target := ih (ordered.sublist (by simp))
    have value := ihValue (ordered.sublist (by simp))
    -- the combination already extends over all tokens, and the target is its first part
    have whole := target.merge value (by simp) (suffix_after ..) ordered
    exact .merge target whole (by simp) (List.suffix_refl _) ordered
  | @stepAfter _ _ t _ _ _ ih =>
    exact .merge (ih (ordered.sublist (by simp))) (.token t) (by simp) (by simp) ordered
  | @stepBefore t _ _ _ _ _ ih | @sign t _ _ _ _ _ ih =>
    have operand := ih (ordered.sublist (by simp))
    exact .merge (.token t) operand (by simp) (List.suffix_cons ..) ordered
  | infixed _ _ _ ih ihRight =>
    have left := ih (ordered.sublist (by simp))
    have right := ihRight (ordered.sublist (by simp))
    rw [Phrase.Extends, Expr.span_infixed]
    exact .merge left right (by simp) (suffix_after ..) ordered
  | @choice _ ts t _ us u _ vs _ _ _ _ _ ih _ ihNo =>
    have back : vs <:+ ts ++ t :: (us ++ u :: vs) := ⟨ts ++ t :: (us ++ [u]), by simp⟩
    have condition := ih (ordered.sublist (by simp))
    have no := ihNo (ordered.sublist back.sublist)
    exact .merge condition no (by simp) back ordered
  | above _ ih | arguments _ ih => exact ih ordered
  | @noElement t | @noArgument t => exact ⟨t, List.suffix_refl _, rfl⟩
  | element _ _ _ ihRest =>
    obtain ⟨u, last, rfl⟩ := ihRest (ordered.sublist (by simp))
    exact ⟨u, last.trans (by simp), rfl⟩
  | elementComma _ _ _ _ ihRest | argument _ _ _ _ ihRest =>
    obtain ⟨u, last, rfl⟩ := ihRest (ordered.sublist (by simp))
    exact ⟨u, last.trans (suffix_after ..), rfl⟩
  | @lastArgument _ _ t => exact ⟨t, by simp, rfl⟩

end

/-! ## Parts of expressions -/

/-- The tokens that an expression takes. A compound assignment repeats its target: the combination
of target and value stands nowhere by itself and takes the tokens of the whole assignment. -/
inductive Expr.Takes : Expr → List Token → Prop
  | phrase {level e ts} : (Phrase.expr level e).Yields ts → Takes e ts
  | combined {target ts t op value us} : (Phrase.expr 12 target).Yields ts →
      BinaryOp.ofCompound? t.kind = some op → (Phrase.expr 0 value).Yields us →
      Takes (.binary (target.span.merge value.span) op target value) (ts ++ t :: us)

/-- The expression takes a stretch of the tokens. -/
def Expr.TakenIn (ts : List Token) (e : Expr) : Prop := ∃ us, us <:+: ts ∧ e.Takes us

/-- The expressions directly inside a phrase. -/
def Phrase.children : Phrase → List Expr
  | expr _ e => e.children
  | elements es _ | arguments es _ | someArguments es _ => es

section
variable {p : Phrase} {e c x : Expr} {level : Nat} {ts us : List Token} {t : Token}

theorem Expr.TakenIn.mono (h : e.TakenIn us) (stretch : us <:+: ts) : e.TakenIn ts := by
  obtain ⟨own, inside, takes⟩ := h
  exact ⟨own, inside.trans stretch, takes⟩

namespace Phrase.Yields

/-- An expression takes its tokens among more of them. -/
theorem takenIn (h : (Phrase.expr level e).Yields us) (stretch : us <:+: ts) : e.TakenIn ts :=
  ⟨us, stretch, .phrase h⟩

theorem takenIn_left (h : (Phrase.expr level e).Yields us) : e.TakenIn (us ++ ts) :=
  h.takenIn (List.prefix_append ..).isInfix

theorem takenIn_right (h : (Phrase.expr level e).Yields us) : e.TakenIn (ts ++ t :: us) :=
  h.takenIn (suffix_after ..).isInfix

/-- What is directly inside a phrase takes a stretch of its tokens. -/
theorem children (h : p.Yields ts) : ∀ c ∈ p.children, c.TakenIn ts := by
  induction h with
  | literal | keyword | name | noElement | noArgument => exact List.forall_mem_nil _
  | array _ _ ih => exact fun c mem => (ih c mem).mono (List.suffix_cons ..).isInfix
  | @group t _ _ u _ inner => exact List.forall_mem_singleton.2 (inner.takenIn ⟨[t], [u], rfl⟩)
  | field target => exact List.forall_mem_singleton.2 target.takenIn_left
  | @index _ ts t _ _ u target _ position =>
    refine List.forall_mem_cons.2 ⟨target.takenIn_left, List.forall_mem_singleton.2 ?_⟩
    exact position.takenIn ⟨ts ++ [t], [u], by simp⟩
  | call callee _ _ _ ih =>
    refine List.forall_mem_cons.2 ⟨callee.takenIn_left, fun c mem => (ih c mem).mono ?_⟩
    exact (suffix_after ..).isInfix
  | assign target _ value =>
    exact List.forall_mem_cons.2
      ⟨target.takenIn_left, List.forall_mem_singleton.2 value.takenIn_right⟩
  | compound target op value =>
    refine List.forall_mem_cons.2 ⟨target.takenIn_left, List.forall_mem_singleton.2 ?_⟩
    exact ⟨_, List.infix_rfl, .combined target op value⟩
  | stepAfter operand => exact List.forall_mem_singleton.2 operand.takenIn_left
  | stepBefore _ operand | sign _ operand =>
    exact List.forall_mem_singleton.2 (operand.takenIn (List.suffix_cons ..).isInfix)
  | @infixed _ _ _ op _ _ left _ right =>
    cases op <;> exact List.forall_mem_cons.2
      ⟨left.takenIn_left, List.forall_mem_singleton.2 right.takenIn_right⟩
  | @choice _ ts t _ us u _ vs condition _ yes _ no =>
    refine List.forall_mem_cons.2 ⟨condition.takenIn_left,
      List.forall_mem_cons.2 ⟨?_, List.forall_mem_singleton.2 ?_⟩⟩
    · exact yes.takenIn ⟨ts ++ [t], u :: vs, by simp⟩
    · exact no.takenIn ⟨ts ++ t :: (us ++ [u]), [], by simp⟩
  | above _ ih | arguments _ ih => exact ih
  | element first _ _ ihRest =>
    refine List.forall_mem_cons.2 ⟨first.takenIn_left, fun c mem => (ihRest c mem).mono ?_⟩
    exact (List.suffix_append ..).isInfix
  | elementComma first _ _ _ ihRest | argument first _ _ _ ihRest =>
    refine List.forall_mem_cons.2 ⟨first.takenIn_left, fun c mem => (ihRest c mem).mono ?_⟩
    exact (suffix_after ..).isInfix
  | lastArgument last => exact List.forall_mem_singleton.2 last.takenIn_left

end Phrase.Yields

namespace Expr.Takes

/-- What is directly inside an expression takes a stretch of its tokens. -/
theorem child (h : e.Takes ts) (mem : c ∈ e.children) : c.TakenIn ts := by
  cases h with
  | phrase yields => exact yields.children c mem
  | combined target _ value =>
    exact List.forall_mem_cons.2
      ⟨target.takenIn_left, List.forall_mem_singleton.2 value.takenIn_right⟩ c mem

/-- So does what is inside it at any depth. -/
theorem part (h : e.Takes ts) (part : e.Part x) : x.TakenIn ts := by
  induction part with
  | self => exact ⟨ts, List.infix_rfl, h⟩
  | inside _ mem ih =>
    obtain ⟨us, stretch, takes⟩ := ih
    exact (takes.child mem).mono stretch

/-- An expression extends over the tokens it takes. -/
theorem extent (h : e.Takes ts) (ordered : TokensInOrder ts) : e.span.Extends ts := by
  cases h with
  | phrase yields => exact yields.extent ordered
  | combined target _ value =>
    have left := target.extent (ordered.sublist (by simp))
    have right := value.extent (ordered.sublist (by simp))
    exact .merge left right (by simp) (suffix_after ..) ordered

end Expr.Takes

/-! ## Assignments -/

/-- The tokens of an assignment: its operator stands between the target and the value. A compound
operator assigns the combination of the target, which keeps its own extent, with the value, and the
combination extends over the whole assignment. -/
inductive Span.Assigns (span : Span) (target : Expr) : Expr → List Token → Prop
  | plain {ts t value us} : t.kind = .equal → target.span.Extends ts → value.span.Extends us →
      Assigns span target value (ts ++ t :: us)
  | compound {ts t op value us} : BinaryOp.ofCompound? t.kind = some op →
      target.span.Extends ts → value.span.Extends us →
      Assigns span target (.binary span op target value) (ts ++ t :: us)

theorem Phrase.Yields.assigns {span : Span} {target value : Expr}
    (h : (Phrase.expr level (.assign span target value)).Yields ts) (ordered : TokensInOrder ts) :
    span.Assigns target value ts := by
  generalize same : Phrase.expr level (.assign span target value) = p at h
  induction h generalizing level with
  | assign left equal right =>
    cases same
    exact .plain equal (left.extent (ordered.sublist (by simp)))
      (right.extent (ordered.sublist (by simp)))
  | @compound target _ _ _ value _ left op right =>
    have whole : target.span.merge (target.span.merge value.span) =
        target.span.merge value.span := by
      rw [← Span.merge_assoc, Span.merge_self]
    cases same
    show Span.Assigns (target.span.merge (target.span.merge value.span)) _ _ _
    rw [whole]
    exact .compound op (left.extent (ordered.sublist (by simp)))
      (right.extent (ordered.sublist (by simp)))
  | @infixed _ _ _ op => cases op <;> cases same
  | above _ ih =>
    cases same
    exact ih ordered rfl
  | _ => cases same

theorem Expr.Takes.assigns {span : Span} {target value : Expr}
    (h : (Expr.assign span target value).Takes ts) (ordered : TokensInOrder ts) :
    span.Assigns target value ts := by
  cases h with
  | phrase yields => exact yields.assigns ordered

end

/-! ## Texts -/

/-- What is said of every expression that was read: it takes a stretch of the tokens, extends over
exactly these, and everything directly inside it lies inside it. -/
structure Expr.Exact (tokens : List Token) (e : Expr) : Prop where
  extent : ∃ ts, ts <:+: tokens ∧ e.Takes ts ∧ e.span.Extends ts ∧
    ∀ span target value, e = .assign span target value → span.Assigns target value ts
  children : ∀ c ∈ e.children, c.span.Inside e.span

/-- The span of a `return` is that of its keyword, and with a value it goes on to the end of the
value, which follows the keyword. -/
def Span.Returns (tokens : List Token) (span : Span) : Option Expr → Prop
  | none => ∃ t ∈ tokens, t.kind = .kwReturn ∧ span = t.span
  | some e => ∃ t ts, t.kind = .kwReturn ∧ t :: ts <:+: tokens ∧ e.Takes ts ∧
    span = ⟨t.span.start, e.span.stop⟩ ∧ e.span.Inside span

section
variable {tokens : List Token} {e : Expr}

theorem Expr.TakenIn.exact (h : e.TakenIn tokens) (ordered : TokensInOrder tokens) :
    e.Exact tokens := by
  obtain ⟨ts, stretch, takes⟩ := h
  have own := ordered.sublist stretch.sublist
  have extent := takes.extent own
  refine ⟨⟨ts, stretch, takes, extent, ?_⟩, fun c mem => ?_⟩
  · rintro span target value rfl
    exact takes.assigns own
  · obtain ⟨us, inside, inner⟩ := takes.child mem
    exact (inner.extent (own.sublist inside.sublist)).inside extent inside own

theorem Expr.TakenIn.fits {length : Nat} (h : e.TakenIn tokens) (ordered : TokensInOrder tokens)
    (inText : ∀ t ∈ tokens, t.span.Fits length) : e.span.Fits length := by
  obtain ⟨ts, stretch, takes⟩ := h
  have own := ordered.sublist stretch.sublist
  exact (takes.extent own).fits own fun t mem => inText t (stretch.subset mem)

/-- A return among tokens in order ends with its value. -/
theorem Stmt.DrawnFrom.returns {span : Span} {value : Option Expr}
    (h : Stmt.DrawnFrom tokens (.ret span value)) (ordered : TokensInOrder tokens) :
    span.Returns tokens value := by
  cases h with
  | @ret t keyword mem => exact ⟨t, mem, keyword, rfl⟩
  | @retValue t e ts keyword yields stretch =>
    have own := ordered.sublist stretch.sublist
    obtain ⟨first, head, last, tail, extent⟩ :=
      yields.extent (own.sublist (List.sublist_cons_self t ts))
    have left : t.span.start ≤ first.span.start :=
      own.first_le rfl (List.mem_cons_of_mem t (List.mem_of_head? head))
    have right : t.span.stop ≤ last.span.stop :=
      own.le_last (mem_getLast?_of_suffix (List.suffix_cons t ts) tail) List.mem_cons_self
    have whole : t.span.merge e.span = ⟨t.span.start, e.span.stop⟩ :=
      Span.merge_later (extent ▸ left) (extent ▸ right)
    refine ⟨t, ts, keyword, stretch, .phrase yields, whole, ?_⟩
    exact ⟨Nat.min_le_right .., Nat.le_max_right ..⟩

theorem Span.Returns.fits {span : Span} {value : Option Expr} {length : Nat}
    (h : span.Returns tokens value) (ordered : TokensInOrder tokens)
    (inText : ∀ t ∈ tokens, t.span.Fits length) : span.Fits length := by
  cases value with
  | none =>
    obtain ⟨t, mem, -, rfl⟩ := h
    exact inText t mem
  | some e =>
    obtain ⟨t, ts, -, stretch, takes, rfl, starts, ends⟩ := h
    have own := ordered.sublist ((List.sublist_cons_self t ts).trans stretch.sublist)
    have value : e.span.Fits length := (takes.extent own).fits own fun u mem =>
      inText u (stretch.subset (List.mem_cons_of_mem t mem))
    exact ⟨Nat.le_trans starts value.1, value.2⟩

end

/-- The tokens of a text lie one after the other. -/
theorem tokensInOrder (text : String) : TokensInOrder (readTokens text) where
  apart := (inOrder_scanFrom text.toList 0 1).tokens.sublist List.filter_sublist
  proper _ mem := (fits_of_mem_scan (List.mem_of_mem_filter mem)).1

/-- **Spans are exact.** Whatever the text and the mode, and whether there are problems or not,
every expression in a statement that was read extends from the first token that it takes to the
last, and everything directly inside it lies inside it; a `return` extends from its keyword to the
end of its value; and these spans, and those of the problems, lie in the text. -/
theorem extents_exact (mode : Mode) (text : String) :
    (∀ st ∈ (Program.ofTokens mode (Scanned.tokens (scan text))).statements,
      ∀ inner, st.Part inner →
        (∀ root ∈ inner.exprs, ∀ e, root.Part e →
          e.Exact (readTokens text) ∧ e.span.Fits text.length) ∧
        ∀ span value, inner = .ret span value →
          span.Returns (readTokens text) value ∧ span.Fits text.length) ∧
    ∀ e ∈ (Program.ofTokens mode (Scanned.tokens (scan text))).errors, e.span.Fits text.length := by
  have ordered := tokensInOrder text
  have inText : ∀ t ∈ readTokens text, t.span.Fits text.length := fun t mem =>
    fits_of_mem_scan (List.mem_of_mem_filter mem)
  refine ⟨fun st mem inner part => ?_, fun e mem => ?_⟩
  · have drawn : inner.DrawnFrom (readTokens text) := by
      rw [← tokens_ofTokens_scan]
      exact (drawnFrom_ofTokens mem).part part
    refine ⟨fun root inRoot e part => ?_, ?_⟩
    · obtain ⟨ts, stretch, yields⟩ := drawn.expr_of_mem inRoot
      obtain ⟨us, inside, takes⟩ := (Expr.Takes.phrase yields).part part
      have taken : e.TakenIn (readTokens text) := ⟨us, inside.trans stretch, takes⟩
      exact ⟨taken.exact ordered, taken.fits ordered inText⟩
    · rintro span value rfl
      have returns := drawn.returns ordered
      exact ⟨returns, returns.fits ordered inText⟩
  · obtain ⟨expected, t, there, rfl⟩ := onTokens_ofTokens mem
    exact fits_of_mem_scan (mem_scan_of_mem_stream there)

/-- A compound assignment and a `return` in a block, and a problem behind it. -/
def compoundText : String := "\x7b x += y; return x; \x7d )"

theorem compound_extents_exact :
    (∃ st ∈ (Program.ofTokens .file (Scanned.tokens (scan compoundText))).statements,
      ∃ inner, st.Part inner ∧ ∃ e ∈ inner.exprs, e.span = ⟨2, 8⟩ ∧
        e.Exact (readTokens compoundText)) ∧
    (∃ st ∈ (Program.ofTokens .file (Scanned.tokens (scan compoundText))).statements,
      ∃ value, st.Part (.ret ⟨10, 18⟩ value) ∧
        Span.Returns (readTokens compoundText) ⟨10, 18⟩ value) ∧
    ∃ e ∈ (Program.ofTokens .file (Scanned.tokens (scan compoundText))).errors,
      e.span.Fits compoundText.length := by
  let inside := (Program.ofTokens .file (Scanned.tokens (scan compoundText))).statements.flatMap
    Stmt.children
  have assigned : ⟨2, 8⟩ ∈ (inside.flatMap Stmt.exprs).map Expr.span := by decide +kernel
  have returned : inside.any (fun
      | .ret span _ => span == ⟨10, 18⟩
      | .declare .. | .function _ | .classDecl _ | .expr _ | .block _ | .branch .. | .loop .. =>
        false) = true := by decide +kernel
  have problems : (Program.ofTokens .file (Scanned.tokens (scan compoundText))).errors ≠ [] := by
    decide +kernel
  obtain ⟨exact, fits⟩ := extents_exact .file compoundText
  refine ⟨?_, ?_, ?_⟩
  · obtain ⟨e, mem, span⟩ := List.mem_map.1 assigned
    obtain ⟨inner, inBlock, mem⟩ := List.mem_flatMap.1 mem
    obtain ⟨st, read, child⟩ := List.mem_flatMap.1 inBlock
    have part : st.Part inner := .inside .self child
    exact ⟨st, read, inner, part, e, mem, span, ((exact st read inner part).1 e mem e .self).1⟩
  · obtain ⟨inner, inBlock, isReturn⟩ := List.any_eq_true.1 returned
    obtain ⟨st, read, child⟩ := List.mem_flatMap.1 inBlock
    cases inner with
    | ret span value =>
      obtain rfl : span = ⟨10, 18⟩ := by simpa using isReturn
      have part : st.Part (.ret ⟨10, 18⟩ value) := .inside .self child
      exact ⟨st, read, value, part, ((exact st read _ part).2 _ value rfl).1⟩
    | _ => cases isReturn
  · obtain ⟨e, rest, same⟩ := List.exists_cons_of_ne_nil problems
    exact ⟨e, same ▸ List.mem_cons_self, fits e (same ▸ List.mem_cons_self)⟩

end Scriptlet
