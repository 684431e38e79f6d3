import Mathlib.Data.List.Forall2
import Scriptlet.Proofs.Reader.Ladder
import Scriptlet.Proofs.Reader.Law

/-!
# Canonical programs are read back

Statements follow the pattern of expressions, with two differences. Reading goes on a page, which
collects problems, so the statements say that no problem was added. And only one token can continue
a statement that is complete: an `else` after a branch that has none (`Stmt.endsOpen`).

The bound on the nesting stays the one of expressions: thirty-two for every token.
-/

namespace Scriptlet

/-! ## Steps on a page -/

section
variable {α : Type} {s : Stream} {errors : List ReadError}

theorem lift_kind_bind {k : TokenKind → PageReading α} :
    ((liftM Reading.kind : PageReading TokenKind) >>= k) ⟨s, errors⟩ = k s.kind ⟨s, errors⟩ :=
  bind_of_ok rfl

theorem lift_next_bind {k : Token → PageReading α} :
    ((liftM Reading.next : PageReading Token) >>= k) ⟨s, errors⟩ =
      k s.here ⟨s.advance, errors⟩ :=
  bind_of_ok rfl

theorem lift_expect_bind {kind : TokenKind} {expected : Expectation} {k : Token → PageReading α}
    (h : s.kind = kind) :
    ((liftM (Reading.expect kind expected) : PageReading Token) >>= k) ⟨s, errors⟩ =
      k s.here ⟨s.advance, errors⟩ :=
  bind_of_ok (lift_of_ok (Reading.expect_of_kind h))

end

theorem readTerminator_of_semicolon {mode : Mode} {expected : Expectation} {s : Stream}
    (h : s.kind = .semicolon) : readTerminator mode expected s = .ok () s.advance := by
  unfold readTerminator
  rw [bind_of_ok (Reading.eat_of_kind h)]
  rfl

/-! ## First tokens -/

/-- Kinds of tokens that a statement without a declaration starts with. -/
def opensPlain (kind : TokenKind) : Bool :=
  starts 0 kind || kind ∈ [.leftBrace, .kwIf, .kwWhile, .kwReturn]

/-- Kinds of tokens that a statement starts with. -/
def opensStmt (kind : TokenKind) : Bool :=
  opensPlain kind || kind ∈ [.kwVar, .kwConst, .kwFunction, .kwClass]

namespace Stmt

/-- A canonical statement starts with a token that fits its form. -/
theorem Canonical.start {st : Stmt} (h : st.Canonical) :
    ∃ x xs, st.spelling = x :: xs ∧ opensStmt x.kind = true ∧
      (st.isPlain = true → opensPlain x.kind = true) := by
  cases h with
  | @declare name value constant _ _ =>
    refine ⟨.fixed (if constant then .kwConst else .kwVar), _, rfl, ?_, nofun⟩
    cases constant <;> rfl
  | function _ _ => exact ⟨_, _, by rw [spelling], rfl, nofun⟩
  | classDecl _ _ _ _ _ => exact ⟨_, _, by rw [spelling], rfl, nofun⟩
  | ret _ => exact ⟨.fixed .kwReturn, _, rfl, rfl, fun _ => rfl⟩
  | expr canonical =>
    obtain ⟨x, xs, spelled, start, -⟩ := canonical.start
    have start := starts_mono start (Nat.zero_le _)
    have plain : opensPlain x.kind = true := by rw [opensPlain, start, Bool.true_or]
    refine ⟨x, _, by rw [spelling, spelled]; rfl, ?_, fun _ => plain⟩
    rw [opensStmt, plain, Bool.true_or]
  | block _ => exact ⟨_, _, by rw [spelling]; rfl, rfl, fun _ => rfl⟩
  | branch _ _ _ _ _ _ => exact ⟨_, _, by rw [spelling]; rfl, rfl, fun _ => rfl⟩
  | loop _ _ _ => exact ⟨_, _, by rw [spelling]; rfl, rfl, fun _ => rfl⟩

theorem Canonical.length_pos {st : Stmt} (h : st.Canonical) : 0 < st.spelling.length := by
  obtain ⟨x, xs, spelled, -⟩ := h.start
  rw [spelled]
  exact Nat.succ_pos _

/-- The first token of a canonical statement. -/
theorem Canonical.opens {st : Stmt} (h : st.Canonical) {s s' : Stream}
    (spelled : s.Spells st.spelling s') :
    opensStmt s.kind = true ∧ (st.isPlain = true → opensPlain s.kind = true) := by
  obtain ⟨x, xs, spelling, start⟩ := h.start
  rw [spelling] at spelled
  rw [spelled.kind_eq]
  exact start

/-! ## Statements that are read back -/

/-- Reading the spelling of `st` gives a statement of the same shape and adds no problem. -/
def Taken (r : PageReading Stmt) (st : Stmt) : Prop :=
  ∀ s s' errors, s.Spells st.spelling s' → (st.endsOpen = true → s'.kind ≠ .kwElse) →
    ∃ st', r ⟨s, errors⟩ = .ok st' ⟨s', errors⟩ ∧ st'.bare = st.bare

/-- A statement that is read back, where declarations are allowed and where they are not. -/
structure ReadBack (st : Stmt) : Prop where
  canonical : st.Canonical
  read : ∀ mode n, 32 * st.spelling.length ≤ n → Taken (Stmt.read mode n) st
  plain : st.isPlain = true → ∀ mode n, 32 * st.spelling.length ≤ n + 1 →
    Taken (Stmt.readPlain mode n) st

variable {mode : Mode} {n : Nat}

/-- A token that opens a statement without a declaration leads to such a statement. -/
theorem read_of_opensPlain {s : Stream} {errors : List ReadError}
    (h : opensPlain s.kind = true) :
    Stmt.read mode (n + 1) ⟨s, errors⟩ = Stmt.readPlain mode n ⟨s, errors⟩ := by
  rw [Stmt.read, lift_kind_bind]
  cases kind : s.kind <;> first | rfl | (rw [kind] at h; cases h)

/-- Where no declaration is allowed the statement is read by one production less. -/
theorem Canonical.readBack_of_plain {st : Stmt} (h : st.Canonical) (isPlain : st.isPlain = true)
    (plain : ∀ mode n, 32 * st.spelling.length ≤ n + 1 → Taken (Stmt.readPlain mode n) st) :
    ReadBack st where
  canonical := h
  read := by
    intro mode n paid s s' errors spelled follow
    have positive := h.length_pos
    obtain ⟨n, rfl⟩ : ∃ m, n = m + 1 := ⟨n - 1, by omega⟩
    rw [read_of_opensPlain ((h.opens spelled).2 isPlain)]
    exact plain mode n paid s s' errors spelled follow
  plain := fun _ => plain

/-! ### Simple statements -/

/-- A token that starts an expression leads to an expression statement. -/
theorem readPlain_of_starts {s : Stream} {errors : List ReadError} (h : starts 0 s.kind = true) :
    Stmt.readPlain mode (n + 1) ⟨s, errors⟩ =
      (do
        let e ← Expr.read n
        readTerminator mode .expressionEnd
        return .expr e : PageReading Stmt) ⟨s, errors⟩ := by
  rw [Stmt.readPlain, lift_kind_bind]
  cases kind : s.kind <;> first | rfl | (rw [kind] at h; cases h)

theorem readBack_expr {e : Expr} (h : e.Canonical) : ReadBack (.expr e) := by
  refine (Canonical.expr h).readBack_of_plain rfl fun mode n paid => ?_
  intro s s' errors spelled _
  simp only [spelling, List.length_append, List.length_singleton] at paid
  obtain ⟨n, rfl⟩ : ∃ m, n = m + 1 := ⟨n - 1, by omega⟩
  rw [spelling] at spelled
  obtain ⟨s₁, first, close⟩ := spelled.split
  have ended : s₁.kind = .semicolon := close.kind_eq
  obtain ⟨e', read, same⟩ := h.ladder.read (n := n) (by omega) first (by rw [ended]; rfl)
  refine ⟨.expr e', ?_, by simp only [bare, same]⟩
  rw [readPlain_of_starts (starts_mono (h.starts_kind first) (Nat.zero_le _)),
    bind_of_ok (lift_of_ok read), bind_of_ok (lift_of_ok (readTerminator_of_semicolon ended)),
    close.tail.eq_of_nil]
  rfl

/-- A return, from behind its keyword on. -/
theorem readReturn_spelled (mode : Mode) {value : Option Expr} (h : ∀ e ∈ value, e.Canonical)
    (keyword : Span)
    {s s' : Stream} (spelled : s.Spells (Expr.spellOption value ++ [.fixed .semicolon]) s')
    (paid : 32 * (Expr.spellOption value).length ≤ n) :
    ∃ st, readReturn mode keyword n s = .ok st s' ∧
      st.bare = .ret .nowhere (value.map Expr.bare) := by
  cases value with
  | none =>
    have ended : s.kind = .semicolon := spelled.kind_eq
    refine ⟨.ret keyword none, ?_, rfl⟩
    rw [readReturn, Expr.kind_bind, if_pos (.inl ended), pure_bind]
    dsimp only
    rw [Expr.kind_bind, if_pos (by rw [ended]; decide),
      bind_of_ok (readTerminator_of_semicolon ended), spelled.tail.eq_of_nil]
    rfl
  | some e =>
    have canonical := h e rfl
    obtain ⟨s₁, first, close⟩ := spelled.split
    have ended : s₁.kind = .semicolon := close.kind_eq
    obtain ⟨e', read, same⟩ := canonical.ladder.read paid first (by rw [ended]; rfl)
    -- without this the return would be read as one that has no value
    have start : ¬ (s.kind = .semicolon ∨ s.kind = .eof) := by
      have start := canonical.starts_kind first
      rintro (kind | kind) <;> (rw [kind] at start; cases start)
    refine ⟨.ret (keyword.merge e'.span) (some e'), ?_, by simp only [bare, Option.map_some, same]⟩
    have reads : (some <$> Expr.read n : Reading (Option Expr)) s = .ok (some e') s₁ := by
      rw [map_eq_pure_bind, bind_of_ok read]
      rfl
    rw [readReturn, Expr.kind_bind, if_neg start, bind_of_ok reads]
    dsimp only
    rw [Expr.kind_bind, if_pos (by rw [ended]; decide),
      bind_of_ok (readTerminator_of_semicolon ended), close.tail.eq_of_nil]
    rfl

theorem readBack_ret {span : Span} {value : Option Expr} (h : ∀ e ∈ value, e.Canonical) :
    ReadBack (.ret span value) := by
  refine (Canonical.ret h).readBack_of_plain rfl fun mode n paid => ?_
  intro s s' errors spelled _
  simp only [spelling, List.cons_append, List.length_cons, List.length_append,
    List.length_nil] at paid
  obtain ⟨n, rfl⟩ : ∃ m, n = m + 1 := ⟨n - 1, by omega⟩
  rw [spelling] at spelled
  obtain ⟨st, read, same⟩ := readReturn_spelled mode (n := n) h s.here.span spelled.tail
    (by omega)
  refine ⟨st, ?_, by rw [same, bare]⟩
  rw [Stmt.readPlain, lift_kind_bind]
  simp only [show s.kind = .kwReturn from spelled.kind_eq]
  rw [lift_next_bind]
  exact lift_of_ok read

/-- A variable or constant, from behind its keyword on. -/
theorem readVariable_spelled (mode : Mode) {name : Name} {value : Option Expr}
    {constant : Bool} (h : ∀ e ∈ value, e.Canonical)
    (filled : constant = true → value.isSome = true)
    {s s' : Stream}
    (spelled : s.Spells (.name name.text :: Expr.spellInitial value ++ [.fixed .semicolon]) s')
    (paid : 32 * (Expr.spellInitial value).length ≤ n) :
    ∃ st, readVariable mode constant n s = .ok st s' ∧
      st.bare = .declare name.bare (value.map Expr.bare) constant := by
  have named : s.kind = .identifier := spelled.kind_eq
  have writes : s.here.lexeme = name.text := spelled.head.2
  have behind := spelled.tail
  cases value with
  | none =>
    have ended : s.advance.kind = .semicolon := behind.kind_eq
    have noValue : s.advance.kind ≠ .equal := by rw [ended]; decide
    -- only a variable can do without a value
    obtain rfl : constant = false := by
      cases constant with
      | false => rfl
      | true => cases filled rfl
    refine ⟨.declare s.here.name none false, ?_, by simp [bare, Name.bare, Token.name, writes]⟩
    rw [readVariable, bind_of_ok (Reading.expect_of_kind named),
      bind_of_ok (Reading.eat_of_ne noValue)]
    simp only [Bool.false_eq_true, ↓reduceIte, pure_bind, Bool.false_and]
    rw [bind_of_ok (readTerminator_of_semicolon ended), behind.tail.eq_of_nil]
    rfl
  | some e =>
    have canonical := h e rfl
    have equal : s.advance.kind = .equal := behind.kind_eq
    obtain ⟨s₁, first, close⟩ := behind.tail.split
    have ended : s₁.kind = .semicolon := close.kind_eq
    simp only [Expr.spellInitial, List.length_cons] at paid
    obtain ⟨e', read, same⟩ :=
      canonical.ladder.read (n := n) (by omega) first (by rw [ended]; rfl)
    refine ⟨.declare s.here.name (some e') constant, ?_,
      by simp only [bare, Name.bare, Token.name, writes, Option.map_some, same]⟩
    have reads : (some <$> Expr.read n : Reading (Option Expr)) s.advance.advance =
        .ok (some e') s₁ := by
      rw [map_eq_pure_bind, bind_of_ok read]
      rfl
    rw [readVariable, bind_of_ok (Reading.expect_of_kind named),
      bind_of_ok (Reading.eat_of_kind equal)]
    simp only [↓reduceIte]
    rw [bind_of_ok reads]
    simp only [Option.isNone_some, Bool.and_false, Bool.false_eq_true, ↓reduceIte]
    rw [bind_of_ok (readTerminator_of_semicolon ended), close.tail.eq_of_nil]
    rfl

theorem readBack_declare {name : Name} {value : Option Expr} {constant : Bool}
    (h : ∀ e ∈ value, e.Canonical) (filled : constant = true → value.isSome = true) :
    ReadBack (.declare name value constant) := by
  refine ⟨.declare h filled, ?_, nofun⟩
  intro mode n paid s s' errors spelled _
  simp only [spelling, List.cons_append, List.length_cons, List.length_append,
    List.length_nil] at paid
  obtain ⟨n, rfl⟩ : ∃ m, n = m + 1 := ⟨n - 1, by omega⟩
  rw [spelling] at spelled
  obtain ⟨st, read, same⟩ := readVariable_spelled mode (n := n) h filled spelled.tail
    (by omega)
  refine ⟨st, ?_, by rw [same, bare]⟩
  have keyword : s.kind = if constant then .kwConst else .kwVar := spelled.kind_eq
  rw [Stmt.read, lift_kind_bind, keyword]
  cases constant with
  | true =>
    simp only [↓reduceIte]
    rw [lift_next_bind]
    exact lift_of_ok read
  | false =>
    simp only [Bool.false_eq_true, ↓reduceIte]
    rw [lift_next_bind]
    exact lift_of_ok read

/-! ### Blocks -/

/-- A token that opens a statement is neither an `else` nor the end of a block. -/
theorem opensStmt_ne_else {kind : TokenKind} (h : opensStmt kind = true) : kind ≠ .kwElse := by
  rintro rfl
  cases h

/-- Statements are followed by no `else` unless one follows them all. -/
theorem spellAll_ne_else {body : List Stmt} (h : ∀ st ∈ body, st.Canonical) {s s' : Stream}
    (spelled : s.Spells (spellAll body) s') (behind : s'.kind ≠ .kwElse) : s.kind ≠ .kwElse := by
  cases body with
  | nil =>
    rw [← spelled.eq_of_nil]
    exact behind
  | cons st rest =>
    obtain ⟨s₁, first, -⟩ := Stream.Spells.split spelled
    exact opensStmt_ne_else ((h st List.mem_cons_self).opens first).1

/-- At the first token of a statement, a block goes on. -/
theorem readBlock_of_opens {s : Stream} {errors : List ReadError} (h : opensStmt s.kind = true) :
    Stmt.readBlock mode (n + 1) ⟨s, errors⟩ =
      (do
        let first ← PageReading.recovering .inside (Stmt.read mode n)
        let rest ← Stmt.readBlock mode n
        return first.toList ++ rest : PageReading (List Stmt)) ⟨s, errors⟩ := by
  rw [Stmt.readBlock, lift_kind_bind]
  cases kind : s.kind <;> first | rfl | (rw [kind] at h; cases h)

/-- The statements of a block, up to the closing brace. -/
theorem readBlock_spelled (mode : Mode) {body : List Stmt} (h : ∀ st ∈ body, ReadBack st) :
    ∀ n s s' errors, s.Spells (spellAll body ++ [.fixed .rightBrace]) s' →
      32 * (spellAll body).length < n →
      ∃ body', Stmt.readBlock mode n ⟨s, errors⟩ = .ok body' ⟨s', errors⟩ ∧
        bareAll body' = bareAll body := by
  induction body with
  | nil =>
    intro n s s' errors spelled paid
    obtain ⟨n, rfl⟩ : ∃ m, n = m + 1 := ⟨n - 1, by omega⟩
    refine ⟨[], ?_, rfl⟩
    rw [Stmt.readBlock, lift_kind_bind]
    simp only [show s.kind = .rightBrace from spelled.kind_eq]
    rw [lift_next_bind, spelled.tail.eq_of_nil]
    rfl
  | cons st rest ih =>
    intro n s s' errors spelled paid
    obtain ⟨n, rfl⟩ : ∃ m, n = m + 1 := ⟨n - 1, by omega⟩
    have hst := h st List.mem_cons_self
    have hrest : ∀ x ∈ rest, ReadBack x := fun x hx => h x (List.mem_cons_of_mem _ hx)
    have positive := hst.canonical.length_pos
    simp only [spellAll, List.length_append] at paid
    rw [spellAll, List.append_assoc] at spelled
    obtain ⟨s₁, first, others⟩ := spelled.split
    -- an open branch at the end of `st` must not find an `else` behind it
    have noElse : s₁.kind ≠ .kwElse := by
      obtain ⟨s₂, inside, close⟩ := others.split
      refine spellAll_ne_else (fun x hx => (hrest x hx).canonical) inside ?_
      rw [close.kind_eq]
      decide
    obtain ⟨st', read, same⟩ := hst.read mode n (by omega) s s₁ errors first fun _ => noElse
    obtain ⟨rest', reads, sames⟩ := ih hrest n s₁ s' errors others (by omega)
    refine ⟨st' :: rest', ?_, by simp only [bareAll, same, sames]⟩
    rw [readBlock_of_opens (hst.canonical.opens first).1, bind_of_ok (recovering_of_ok read),
      bind_of_ok reads]
    rfl

theorem ReadBack.block {body : List Stmt} (h : ∀ st ∈ body, ReadBack st) :
    ReadBack (.block body) := by
  refine (Canonical.block fun st hst => (h st hst).canonical).readBack_of_plain rfl
    fun mode n paid => ?_
  intro s s' errors spelled _
  simp only [spelling, List.cons_append, List.length_cons, List.length_append,
    List.length_nil] at paid
  obtain ⟨n, rfl⟩ : ∃ m, n = m + 1 := ⟨n - 1, by omega⟩
  rw [spelling] at spelled
  obtain ⟨body', reads, same⟩ := readBlock_spelled mode h n _ s' errors spelled.tail
    (by omega)
  refine ⟨.block body', ?_, by simp only [bare, same]⟩
  rw [Stmt.readPlain, lift_kind_bind]
  simp only [show s.kind = .leftBrace from spelled.kind_eq]
  rw [lift_next_bind, bind_of_ok reads]
  rfl

/-! ### Branches and loops -/

theorem ReadBack.branch {condition : Expr} {yes : Stmt} {no : Option Stmt}
    (hc : condition.Canonical) (hy : ReadBack yes) (plainYes : yes.isPlain = true)
    (hn : ∀ st ∈ no, ReadBack st) (plainNo : ∀ st ∈ no, st.isPlain = true)
    (dangling : no.isSome = true → yes.endsOpen = false) :
    ReadBack (.branch condition yes no) := by
  refine (Canonical.branch hc hy.canonical plainYes (fun st hst => (hn st hst).canonical) plainNo
    dangling).readBack_of_plain rfl fun mode n paid => ?_
  intro s s' errors spelled follow
  simp only [spelling, List.cons_append, List.length_cons, List.length_append] at paid
  obtain ⟨n, rfl⟩ : ∃ m, n = m + 1 := ⟨n - 1, by omega⟩
  rw [spelling] at spelled
  obtain ⟨s₂, front, back⟩ := spelled.split
  obtain ⟨s₁, first, second⟩ := front.tail.tail.split
  have opened : s.advance.kind = .leftParen := front.tail.kind_eq
  have closed : s₁.kind = .rightParen := second.kind_eq
  obtain ⟨condition', readCondition, sameCondition⟩ :=
    hc.ladder.read (n := n) (by omega) first (by rw [closed]; rfl)
  rw [Stmt.readPlain, lift_kind_bind]
  simp only [show s.kind = .kwIf from front.kind_eq]
  rw [lift_next_bind, lift_expect_bind opened, bind_of_ok (lift_of_ok readCondition),
    lift_expect_bind closed]
  cases no with
  | none =>
    obtain rfl : s' = s₂ := back.eq_of_nil
    have noElse : s'.kind ≠ .kwElse := follow rfl
    obtain ⟨yes', readYes, sameYes⟩ :=
      hy.plain plainYes mode n (by omega) _ s' errors second.tail fun _ => noElse
    refine ⟨.branch condition' yes' none, ?_,
      by simp only [bare, bareOption, sameCondition, sameYes]⟩
    rw [bind_of_ok readYes, bind_of_ok (lift_of_ok (Reading.eat_of_ne noElse))]
    rfl
  | some no =>
    have hn := hn no rfl
    have isElse : s₂.kind = .kwElse := back.kind_eq
    simp only [spellElse, List.length_cons] at paid
    -- `yes` does not end open, so it leaves the `else` behind it alone
    obtain ⟨yes', readYes, sameYes⟩ := hy.plain plainYes mode n (by omega) _ s₂ errors second.tail
      (by rw [dangling rfl]; exact nofun)
    obtain ⟨no', readNo, sameNo⟩ :=
      hn.plain (plainNo no rfl) mode n (by omega) _ s' errors back.tail follow
    refine ⟨.branch condition' yes' (some no'), ?_,
      by simp only [bare, bareOption, sameCondition, sameYes, sameNo]⟩
    rw [bind_of_ok readYes, bind_of_ok (lift_of_ok (Reading.eat_of_kind isElse))]
    simp only [↓reduceIte]
    rw [bind_of_ok readNo]
    rfl

theorem ReadBack.loop {condition : Expr} {body : Stmt} (hc : condition.Canonical)
    (hb : ReadBack body) (plain : body.isPlain = true) : ReadBack (.loop condition body) := by
  refine (Canonical.loop hc hb.canonical plain).readBack_of_plain rfl fun mode n paid => ?_
  intro s s' errors spelled follow
  simp only [spelling, List.cons_append, List.length_cons, List.length_append] at paid
  obtain ⟨n, rfl⟩ : ∃ m, n = m + 1 := ⟨n - 1, by omega⟩
  rw [spelling] at spelled
  obtain ⟨s₁, first, second⟩ := spelled.tail.tail.split
  have opened : s.advance.kind = .leftParen := spelled.tail.kind_eq
  have closed : s₁.kind = .rightParen := second.kind_eq
  obtain ⟨condition', readCondition, sameCondition⟩ :=
    hc.ladder.read (n := n) (by omega) first (by rw [closed]; rfl)
  obtain ⟨body', readBody, sameBody⟩ :=
    hb.plain plain mode n (by omega) _ s' errors second.tail follow
  refine ⟨.loop condition' body', ?_, by simp only [bare, sameCondition, sameBody]⟩
  rw [Stmt.readPlain, lift_kind_bind]
  simp only [show s.kind = .kwWhile from spelled.kind_eq]
  rw [lift_next_bind, lift_expect_bind opened, bind_of_ok (lift_of_ok readCondition),
    lift_expect_bind closed, bind_of_ok readBody]
  rfl

/-! ### Functions -/

/-- Parameters, one at least, up to a token that is no comma. -/
theorem readParametersRest_spelled {first : Name} {params : List Name} :
    ∀ n s s', s.Spells (.name first.text ::
        afterCommas (params.map fun param => [.name param.text])) s' →
      s'.kind ≠ .comma → params.length < n →
      ∃ params', readParametersRest n s = .ok params' s' ∧
        params'.map Name.bare = (first :: params).map Name.bare := by
  induction params generalizing first with
  | nil =>
    intro n s s' spelled noComma paid
    obtain ⟨n, rfl⟩ : ∃ m, n = m + 1 := ⟨n - 1, by omega⟩
    have named : s.kind = .identifier := spelled.kind_eq
    have writes : s.here.lexeme = first.text := spelled.head.2
    obtain rfl : s' = s.advance := spelled.tail.eq_of_nil
    refine ⟨[s.here.name], ?_, by simp [Name.bare, Token.name, writes]⟩
    rw [readParametersRest, bind_of_ok (Reading.expect_of_kind named),
      bind_of_ok (Reading.eat_of_ne noComma)]
    rfl
  | cons second rest ih =>
    intro n s s' spelled noComma paid
    obtain ⟨n, rfl⟩ : ∃ m, n = m + 1 := ⟨n - 1, by omega⟩
    have named : s.kind = .identifier := spelled.kind_eq
    have writes : s.here.lexeme = first.text := spelled.head.2
    have behind := spelled.tail
    rw [List.map_cons, afterCommas] at behind
    have comma : s.advance.kind = .comma := behind.kind_eq
    obtain ⟨rest', reads, sames⟩ :=
      ih n _ s' behind.tail noComma (by rw [List.length_cons] at paid; omega)
    refine ⟨s.here.name :: rest', ?_, ?_⟩
    · rw [readParametersRest, bind_of_ok (Reading.expect_of_kind named),
        bind_of_ok (Reading.eat_of_kind comma)]
      simp only [↓reduceIte]
      rw [bind_of_ok reads]
      rfl
    · rw [List.map_cons, sames]
      simp [Name.bare, Token.name, writes]

theorem readParameters_spelled {params : List Name} {s s' : Stream}
    (spelled : s.Spells (spellParameters params) s')
    (paid : (spellParameters params).length ≤ n) :
    ∃ params', readParameters n s = .ok params' s' ∧
      params'.map Name.bare = params.map Name.bare := by
  rw [spellParameters] at spelled paid
  have opened : s.kind = .leftParen := spelled.kind_eq
  obtain ⟨s₁, inside, close⟩ := spelled.tail.split
  have closed : s₁.kind = .rightParen := close.kind_eq
  cases params with
  | nil =>
    obtain rfl : s₁ = s.advance := inside.eq_of_nil
    refine ⟨[], ?_, rfl⟩
    rw [readParameters, bind_of_ok (Reading.expect_of_kind opened), Expr.kind_bind,
      if_pos closed, pure_bind]
    dsimp only
    rw [bind_of_ok (Reading.expect_of_kind closed), close.tail.eq_of_nil]
    rfl
  | cons first rest =>
    have named : s.advance.kind ≠ .rightParen := by
      rw [show s.advance.kind = .identifier from inside.kind_eq]
      decide
    have noComma : s₁.kind ≠ .comma := by rw [closed]; decide
    have shorter : rest.length < n := by
      have : rest.length ≤ (afterCommas (rest.map fun param => [.name param.text])).length := by
        clear inside paid spelled
        induction rest with
        | nil => exact Nat.le_refl _
        | cons param rest ih =>
          simp only [List.map_cons, afterCommas, List.cons_append, List.length_cons,
            List.length_append]
          omega
      simp only [List.map_cons, separated, List.cons_append, List.length_cons,
        List.length_append] at paid
      omega
    obtain ⟨params', reads, same⟩ :=
      readParametersRest_spelled n s.advance s₁ inside noComma shorter
    refine ⟨params', ?_, same⟩
    rw [readParameters, bind_of_ok (Reading.expect_of_kind opened), Expr.kind_bind,
      if_neg named, bind_of_ok reads]
    dsimp only
    rw [bind_of_ok (Reading.expect_of_kind closed), close.tail.eq_of_nil]
    rfl

/-- A function, from behind its name on. -/
theorem readFunction_spelled (mode : Mode) (errors : List ReadError) {decl : FunctionDecl Stmt}
    (h : ∀ st ∈ decl.body, ReadBack st) {name : Name} (sameName : name.bare = decl.name.bare)
    {s s' : Stream}
    (spelled : s.Spells (spellParameters decl.params ++
      .fixed .leftBrace :: spellAll decl.body ++ [.fixed .rightBrace]) s')
    (paid : 32 * ((spellParameters decl.params).length + (spellAll decl.body).length + 1) ≤ n) :
    ∃ decl', Stmt.readFunction mode name decl.isMethod n ⟨s, errors⟩ = .ok decl' ⟨s', errors⟩ ∧
      bareFunction decl' = bareFunction decl := by
  obtain ⟨n, rfl⟩ : ∃ m, n = m + 1 := ⟨n - 1, by omega⟩
  rw [List.append_assoc] at spelled
  obtain ⟨s₁, params, body⟩ := spelled.split
  have opened : s₁.kind = .leftBrace := body.kind_eq
  obtain ⟨params', readParams, sameParams⟩ := readParameters_spelled (n := n) params (by omega)
  obtain ⟨body', readBody, sameBody⟩ :=
    readBlock_spelled mode h n _ s' errors body.tail (by omega)
  refine ⟨⟨name, params', body', decl.isMethod⟩, ?_, ?_⟩
  · rw [Stmt.readFunction, bind_of_ok (lift_of_ok readParams), lift_expect_bind opened,
      bind_of_ok readBody]
    rfl
  · simp only [bareFunction_eq, sameName, sameParams, sameBody]

theorem spellFunction_eq (decl : FunctionDecl Stmt) :
    spellFunction decl = .name decl.name.text :: (spellParameters decl.params ++
      .fixed .leftBrace :: spellAll decl.body ++ [.fixed .rightBrace]) := by
  cases decl
  simp [spellFunction]

theorem ReadBack.function {decl : FunctionDecl Stmt} (free : decl.isMethod = false)
    (h : ∀ st ∈ decl.body, ReadBack st) : ReadBack (.function decl) := by
  refine ⟨.function free fun st hst => (h st hst).canonical, ?_, nofun⟩
  intro mode n paid s s' errors spelled _
  rw [spelling, spellFunction_eq] at spelled paid
  simp only [List.length_cons, List.length_append] at paid
  obtain ⟨n, rfl⟩ : ∃ m, n = m + 1 := ⟨n - 1, by omega⟩
  have named : s.advance.kind = .identifier := spelled.tail.kind_eq
  have sameName : s.advance.here.name.bare = decl.name.bare := by
    simp only [Name.bare, Token.name, spelled.tail.head.2]
  obtain ⟨decl', read, same⟩ := readFunction_spelled mode errors (n := n) h
    sameName spelled.tail.tail (by omega)
  rw [free] at read
  refine ⟨.function decl', ?_, by simp only [bare, same]⟩
  rw [Stmt.read, lift_kind_bind]
  simp only [show s.kind = .kwFunction from spelled.kind_eq]
  rw [lift_next_bind, lift_expect_bind named, bind_of_ok read]
  rfl

/-! ### Classes -/

/-- The symbols that write a member of a class. -/
def spellMember : Member → List Symbol
  | .field decl => decl.spelling
  | .method decl => spellFunction decl

theorem spellClass_eq (decl : ClassDecl Stmt) :
    spellClass decl = .name decl.name.text :: (spellSuperclass decl.superclass ++
      .fixed .leftBrace :: (decl.members.flatMap spellMember ++ [.fixed .rightBrace])) := by
  have methods : ∀ decls : List (FunctionDecl Stmt),
      spellMethods decls = (decls.map Member.method).flatMap spellMember := by
    intro decls
    induction decls with
    | nil => rfl
    | cons decl rest ih => rw [spellMethods, ih]; rfl
  have constructor : ∀ decl : Option (FunctionDecl Stmt),
      spellConstructor decl = (decl.toList.map Member.method).flatMap spellMember := by
    intro decl
    cases decl with
    | none => rfl
    | some decl => simp [spellConstructor, spellMember]
  have fields : ∀ decls : List FieldDecl,
      decls.flatMap FieldDecl.spelling = (decls.map Member.field).flatMap spellMember := by
    intro decls
    rw [List.flatMap_map]
    rfl
  cases decl
  simp only [spellClass, ClassDecl.members, methods, constructor, fields, List.flatMap_append,
    List.cons_append, List.append_assoc]

/-- A member of a class that is read back. -/
def MemberReadBack : Member → Prop
  | .field decl => decl.value.Canonical
  | .method decl => decl.isMethod = true ∧ ∀ st ∈ decl.body, ReadBack st

theorem spellMember_eq (member : Member) :
    ∃ name rest, spellMember member = .name name :: rest := by
  cases member with
  | field decl => exact ⟨_, _, by rw [spellMember, FieldDecl.spelling]; rfl⟩
  | method decl => exact ⟨_, _, by rw [spellMember, spellFunction_eq]⟩

/-- One member of a class. -/
def readMember (mode : Mode) (n : Nat) : PageReading Member := do
  let name ← Reading.expect .identifier .memberName
  match ← Reading.kind with
  | .equal =>
    let _ ← Reading.next
    let value ← Expr.read n
    readTerminator mode .fieldEnd
    return .field ⟨name.name, value⟩
  | .leftParen => Member.method <$> Stmt.readFunction mode name.name true n
  | _ => (Reading.fail .memberRest : Reading Member)

/-- Where a name stands, the members of a class are one member and those after it. -/
theorem readMembers_of_identifier {s : Stream} {errors : List ReadError}
    (named : s.kind = .identifier) :
    Stmt.readMembers mode (n + 1) ⟨s, errors⟩ =
      (do
        let member ← readMember mode n
        let rest ← Stmt.readMembers mode n
        return member :: rest : PageReading (List Member)) ⟨s, errors⟩ := by
  rw [Stmt.readMembers, lift_kind_bind]
  simp only [named]
  rw [lift_expect_bind named, readMember, bind_assoc, lift_expect_bind named, bind_assoc]
  rw [lift_kind_bind, lift_kind_bind]
  cases s.advance.kind <;> simp only [bind_assoc, pure_bind]

theorem readMember_spelled (mode : Mode) (errors : List ReadError) {member : Member}
    (h : MemberReadBack member) {s s' : Stream} (spelled : s.Spells (spellMember member) s')
    (paid : 32 * (spellMember member).length ≤ n) :
    ∃ member', readMember mode n ⟨s, errors⟩ = .ok member' ⟨s', errors⟩ ∧
      member'.bare = member.bare := by
  cases member with
  | field decl =>
    rw [spellMember, FieldDecl.spelling] at spelled paid
    simp only [List.cons_append, List.length_cons, List.length_append] at paid
    have named : s.kind = .identifier := spelled.kind_eq
    have writes : s.here.lexeme = decl.name.text := spelled.head.2
    obtain ⟨s₁, first, close⟩ := spelled.tail.tail.split
    have ended : s₁.kind = .semicolon := close.kind_eq
    obtain ⟨value', read, same⟩ := h.ladder.read (n := n) (by omega) first (by rw [ended]; rfl)
    refine ⟨.field ⟨s.here.name, value'⟩, ?_,
      by simp only [Member.bare, FieldDecl.bare, Name.bare, Token.name, writes, same]⟩
    rw [readMember, lift_expect_bind named, lift_kind_bind]
    simp only [show s.advance.kind = .equal from spelled.tail.kind_eq]
    rw [lift_next_bind, bind_of_ok (lift_of_ok read),
      bind_of_ok (lift_of_ok (readTerminator_of_semicolon ended)), close.tail.eq_of_nil]
    rfl
  | method decl =>
    rw [spellMember, spellFunction_eq] at spelled paid
    simp only [List.length_cons, List.length_append] at paid
    have named : s.kind = .identifier := spelled.kind_eq
    have sameName : s.here.name.bare = decl.name.bare := by
      simp only [Name.bare, Token.name, spelled.head.2]
    obtain ⟨decl', read, same⟩ := readFunction_spelled mode errors (n := n) h.2 sameName
      spelled.tail (by omega)
    rw [h.1] at read
    refine ⟨.method decl', ?_, by simp only [Member.bare, same]⟩
    rw [readMember, lift_expect_bind named, lift_kind_bind]
    simp only [show s.advance.kind = .leftParen from spelled.tail.kind_eq]
    rw [map_eq_pure_bind, bind_of_ok read]
    rfl

/-- The members of a class, up to the closing brace. -/
theorem readMembers_spelled (mode : Mode) (errors : List ReadError) {members : List Member}
    (h : ∀ member ∈ members, MemberReadBack member) :
    ∀ n s s', s.Spells (members.flatMap spellMember ++ [.fixed .rightBrace]) s' →
      32 * (members.flatMap spellMember).length < n →
      ∃ members', Stmt.readMembers mode n ⟨s, errors⟩ = .ok members' ⟨s', errors⟩ ∧
        members'.map Member.bare = members.map Member.bare := by
  induction members with
  | nil =>
    intro n s s' spelled paid
    obtain ⟨n, rfl⟩ : ∃ m, n = m + 1 := ⟨n - 1, by omega⟩
    refine ⟨[], ?_, rfl⟩
    rw [Stmt.readMembers, lift_kind_bind]
    simp only [show s.kind = .rightBrace from spelled.kind_eq]
    rw [lift_next_bind, spelled.tail.eq_of_nil]
    rfl
  | cons member rest ih =>
    intro n s s' spelled paid
    obtain ⟨n, rfl⟩ : ∃ m, n = m + 1 := ⟨n - 1, by omega⟩
    rw [List.flatMap_cons, List.append_assoc] at spelled
    rw [List.flatMap_cons, List.length_append] at paid
    obtain ⟨s₁, first, others⟩ := spelled.split
    obtain ⟨name, symbols, spelling⟩ := spellMember_eq member
    have named : s.kind = .identifier := by
      rw [spelling] at first
      exact first.kind_eq
    have positive : 0 < (spellMember member).length := by
      rw [spelling]
      exact Nat.succ_pos _
    obtain ⟨member', read, same⟩ :=
      readMember_spelled mode errors (n := n) (h member List.mem_cons_self) first (by omega)
    obtain ⟨rest', reads, sames⟩ :=
      ih (fun x hx => h x (List.mem_cons_of_mem _ hx)) n s₁ s' others (by omega)
    refine ⟨member' :: rest', ?_, by rw [List.map_cons, same, sames, List.map_cons]⟩
    rw [readMembers_of_identifier named, bind_of_ok read, bind_of_ok reads]
    rfl

/-- Sorting the members of a class gives the class back if the constructor, and no other method,
has its name. -/
theorem ofMembers_members {decl : ClassDecl Stmt}
    (methods : ∀ method ∈ decl.methods, method.name.text ≠ decl.name.text)
    (constructor : ∀ method ∈ decl.constructor, method.name.text = decl.name.text) :
    ClassDecl.ofMembers decl.name decl.superclass decl.members = decl := by
  obtain ⟨name, superclass, fieldDecls, methodDecls, constructorDecl⟩ := decl
  have noField : ∀ decls : List (FunctionDecl Stmt),
      (decls.map Member.method).filterMap Member.field? = [] := by
    intro decls
    rw [List.filterMap_map]
    exact List.filterMap_eq_nil_iff.2 fun _ _ => rfl
  have noMethod : (fieldDecls.map Member.field).filterMap Member.method? = [] := by
    rw [List.filterMap_map]
    exact List.filterMap_eq_nil_iff.2 fun _ _ => rfl
  have fields : (fieldDecls.map Member.field).filterMap Member.field? = fieldDecls := by
    rw [List.filterMap_map]
    exact List.filterMap_some
  have kept : ∀ decls : List (FunctionDecl Stmt),
      (decls.map Member.method).filterMap Member.method? = decls := by
    intro decls
    rw [List.filterMap_map]
    exact List.filterMap_some
  simp only [ClassDecl.ofMembers, ClassDecl.members, List.filterMap_append, noField, noMethod,
    fields, kept, List.append_nil, List.nil_append, List.filter_append]
  have ordinary : methodDecls.filter (·.name.text != name.text) = methodDecls :=
    List.filter_eq_self.2 fun decl hd => by simpa using methods decl hd
  have special : methodDecls.filter (·.name.text == name.text) = [] :=
    List.filter_eq_nil_iff.2 fun decl hd => by simpa using methods decl hd
  cases constructorDecl with
  | none => simp [ordinary, special]
  | some decl =>
    have named : decl.name.text = name.text := constructor decl rfl
    simp [ordinary, special, named]

/-- A class, from behind its keyword on. -/
theorem readClass_spelled (mode : Mode) (errors : List ReadError) {decl : ClassDecl Stmt}
    (h : ∀ member ∈ decl.members, MemberReadBack member) {s s' : Stream}
    (spelled : s.Spells (spellClass decl) s') (paid : 32 * (spellClass decl).length ≤ n) :
    ∃ superclass members,
      Stmt.readClass mode (n + 1) ⟨s, errors⟩ =
        .ok (.ofMembers s.here.name superclass members) ⟨s', errors⟩ ∧
      superclass.map Name.bare = decl.superclass.map Name.bare ∧
      members.map Member.bare = decl.members.map Member.bare := by
  rw [spellClass_eq] at spelled paid
  simp only [List.length_cons, List.length_append] at paid
  have named : s.kind = .identifier := spelled.kind_eq
  obtain ⟨s₁, parent, body⟩ := spelled.tail.split
  have opened : s₁.kind = .leftBrace := body.kind_eq
  obtain ⟨members, readMembers, sameMembers⟩ :=
    readMembers_spelled mode errors h n _ s' body.tail (by omega)
  cases superclass : decl.superclass with
  | none =>
    rw [superclass] at parent
    obtain rfl : s₁ = s.advance := parent.eq_of_nil
    have noColon : s.advance.kind ≠ .colon := by rw [opened]; decide
    refine ⟨none, members, ?_, rfl, sameMembers⟩
    rw [Stmt.readClass, lift_expect_bind named,
      bind_of_ok (lift_of_ok (Reading.eat_of_ne noColon))]
    simp only [Bool.false_eq_true, ↓reduceIte, pure_bind]
    rw [lift_expect_bind opened, bind_of_ok readMembers]
    rfl
  | some name =>
    rw [superclass] at parent
    have colon : s.advance.kind = .colon := parent.kind_eq
    have parentNamed : s.advance.advance.kind = .identifier := parent.tail.kind_eq
    obtain rfl : s₁ = s.advance.advance.advance := parent.tail.tail.eq_of_nil
    refine ⟨some s.advance.advance.here.name, members, ?_, ?_, sameMembers⟩
    · rw [Stmt.readClass, lift_expect_bind named,
        bind_of_ok (lift_of_ok (Reading.eat_of_kind colon))]
      simp only [↓reduceIte]
      rw [lift_expect_bind parentNamed]
      simp only [pure_bind]
      rw [lift_expect_bind opened, bind_of_ok readMembers]
      rfl
    · simp only [Option.map_some, Name.bare, Token.name, parent.tail.head.2]

theorem ReadBack.classDecl {decl : ClassDecl Stmt}
    (hf : ∀ field ∈ decl.fields, field.value.Canonical)
    (methods : ∀ method ∈ decl.methods,
      method.isMethod = true ∧ method.name.text ≠ decl.name.text)
    (hm : ∀ method ∈ decl.methods, ∀ st ∈ method.body, ReadBack st)
    (constructor : ∀ method ∈ decl.constructor,
      method.isMethod = true ∧ method.name.text = decl.name.text)
    (hc : ∀ method ∈ decl.constructor, ∀ st ∈ method.body, ReadBack st) :
    ReadBack (.classDecl decl) := by
  refine ⟨.classDecl hf methods (fun m hm' st hst => (hm m hm' st hst).canonical) constructor
    (fun m hm' st hst => (hc m hm' st hst).canonical), ?_, nofun⟩
  intro mode n paid s s' errors spelled _
  rw [spelling] at spelled paid
  rw [List.length_cons] at paid
  obtain ⟨n, rfl⟩ : ∃ m, n = m + 1 := ⟨n - 1, by omega⟩
  obtain ⟨n, rfl⟩ : ∃ m, n = m + 1 := ⟨n - 1, by omega⟩
  have members : ∀ member ∈ decl.members, MemberReadBack member := by
    intro member mem
    simp only [ClassDecl.members, List.mem_append, List.mem_map, Option.mem_toList] at mem
    rcases mem with (⟨field, mem, rfl⟩ | ⟨method, mem, rfl⟩) | ⟨method, mem, rfl⟩
    · exact hf field mem
    · exact ⟨(methods method mem).1, hm method mem⟩
    · exact ⟨(constructor method mem).1, hc method mem⟩
  obtain ⟨superclass', members', read, sameParent, sameMembers⟩ :=
    readClass_spelled mode errors (n := n) members spelled.tail (by omega)
  have sameName : s.advance.here.name.bare = decl.name.bare := by
    have written := spelled.tail
    rw [spellClass_eq] at written
    simp only [Name.bare, Token.name, written.head.2]
  -- the members come back in their order, and sorting them again gives the class they came from
  have shape : bareClass (.ofMembers s.advance.here.name superclass' members') =
      bareClass decl := by
    rw [bareClass_ofMembers, sameName, sameParent, sameMembers, ← bareClass_ofMembers,
      ofMembers_members (fun m hm' => (methods m hm').2) fun m hm' => (constructor m hm').2]
  refine ⟨.classDecl (.ofMembers s.advance.here.name superclass' members'), ?_,
    by rw [bare, bare, shape]⟩
  rw [Stmt.read, lift_kind_bind]
  simp only [show s.kind = .kwClass from spelled.kind_eq]
  rw [lift_next_bind, bind_of_ok read]
  rfl

/-- Every canonical statement is read back. -/
theorem Canonical.readBack {st : Stmt} (h : st.Canonical) : ReadBack st := by
  induction h with
  | declare value filled => exact readBack_declare value filled
  | function free _ body => exact .function free body
  | classDecl fields named _ constructor _ methods bodies =>
    exact .classDecl fields named methods constructor bodies
  | ret value => exact readBack_ret value
  | expr e => exact readBack_expr e
  | block _ body => exact .block body
  | branch condition _ plainYes _ plainNo dangling yes no =>
    exact .branch condition yes plainYes no plainNo dangling
  | loop condition _ plain body => exact .loop condition body plain

end Stmt

/-! ## Programs -/

/-- Tokens that write parts of a program are neither skipped nor taken for the end. -/
theorem visible_of_writes {tokens : List Token} {symbols : List Symbol}
    (writes : List.Forall₂ Token.Writes tokens symbols)
    (parts : symbols.all Symbol.isPart = true) :
    ∀ t ∈ tokens, t.kind ≠ .eof ∧ t.kind.isTrivia = false := by
  induction writes with
  | nil => exact nofun
  | cons first _ ih =>
    rw [List.all_cons, Bool.and_eq_true, Symbol.isPart, ← first.kind_eq] at parts
    intro t ht
    rcases List.mem_cons.1 ht with rfl | ht
    · simpa using parts.1
    · exact ih parts.2 t ht

/-- Tokens that write symbols, with an end token behind them, form a stream that spells them. -/
theorem Stream.spells_of_writes {tokens : List Token} {symbols : List Symbol}
    (writes : List.Forall₂ Token.Writes tokens symbols)
    (parts : symbols.all Symbol.isPart = true) (last : Token) :
    ∀ passed first rest, tokens ++ [last] = first :: rest →
      (Stream.mk passed first rest).Spells symbols ⟨tokens.reverse ++ passed, last, []⟩ := by
  induction writes with
  | nil =>
    intro passed first rest same
    obtain ⟨rfl, rfl⟩ := List.cons.inj same
    exact .nil _
  | @cons t x tokens symbols writes others ih =>
    intro passed first rest same
    rw [List.cons_append] at same
    obtain ⟨rfl, rfl⟩ := List.cons.inj same
    have notEnd : (Stream.mk passed t (tokens ++ [last])).atEnd = false := by
      have visible := (visible_of_writes (.cons writes others) parts t List.mem_cons_self).1
      simpa [Stream.atEnd, Stream.kind] using visible
    rw [List.all_cons, Bool.and_eq_true] at parts
    have moved : ∃ second behind, tokens ++ [last] = second :: behind ∧
        (Stream.mk passed t (tokens ++ [last])).advance = ⟨t :: passed, second, behind⟩ := by
      unfold Stream.advance
      rw [notEnd]
      cases tokens with
      | nil => exact ⟨last, [], rfl, rfl⟩
      | cons second behind => exact ⟨second, behind ++ [last], rfl, rfl⟩
    obtain ⟨second, behind, split, moved⟩ := moved
    refine .cons writes ?_
    rw [moved, List.reverse_cons, List.append_assoc]
    exact ih parts.2 (t :: passed) second behind split

/-- The statements of a program, up to the end. -/
theorem readProgram_spelled (mode : Mode) {p : List Stmt} (h : ∀ st ∈ p, st.Canonical) :
    ∀ n s s' errors, s.Spells (Stmt.spellAll p) s' → s'.kind = .eof →
      32 * (Stmt.spellAll p).length < n →
      ∃ p', readProgram mode n ⟨s, errors⟩ = .ok p' ⟨s', errors⟩ ∧
        p'.map Stmt.bare = p.map Stmt.bare := by
  induction p with
  | nil =>
    intro n s s' errors spelled ended paid
    obtain ⟨n, rfl⟩ : ∃ m, n = m + 1 := ⟨n - 1, by omega⟩
    obtain rfl : s' = s := spelled.eq_of_nil
    refine ⟨[], ?_, rfl⟩
    rw [readProgram, lift_kind_bind, if_pos ended]
    rfl
  | cons st rest ih =>
    intro n s s' errors spelled ended paid
    obtain ⟨n, rfl⟩ : ∃ m, n = m + 1 := ⟨n - 1, by omega⟩
    have canonical := h st List.mem_cons_self
    have hrest : ∀ x ∈ rest, x.Canonical := fun x hx => h x (List.mem_cons_of_mem _ hx)
    have positive := canonical.length_pos
    rw [Stmt.spellAll] at spelled
    rw [Stmt.spellAll, List.length_append] at paid
    obtain ⟨s₁, first, others⟩ := spelled.split
    have noElse : s₁.kind ≠ .kwElse :=
      Stmt.spellAll_ne_else hrest others (by rw [ended]; decide)
    have more : s.kind ≠ .eof := by
      have opens := (canonical.opens first).1
      rintro eof
      rw [eof] at opens
      cases opens
    obtain ⟨st', read, same⟩ :=
      canonical.readBack.read mode n (by omega) s s₁ errors first fun _ => noElse
    obtain ⟨rest', reads, sames⟩ := ih hrest n s₁ s' errors others ended (by omega)
    refine ⟨st' :: rest', ?_, by rw [List.map_cons, same, sames, List.map_cons]⟩
    rw [readProgram, lift_kind_bind, if_neg more, bind_of_ok (recovering_of_ok read),
      bind_of_ok reads]
    rfl

/-- Tokens without an end token get one. -/
theorem Stream.withEnd_of_open {tokens : List Token} (inside : ∀ t ∈ tokens, t.kind ≠ .eof) :
    Stream.withEnd tokens = tokens ++ [missingEnd tokens.getLast?] := by
  unfold withEnd
  cases h : tokens.getLast? with
  | none =>
    rw [List.getLast?_eq_none_iff.1 h]
    rfl
  | some t => simp only [inside t (List.mem_of_getLast? h), if_false]

theorem Stream.kind_missingEnd (last : Option Token) : (missingEnd last).kind = .eof := by
  cases last <;> rfl

/-- The end token of a list may be there or not. -/
theorem Stream.withEnd_append {tokens ending : List Token}
    (visible : ∀ t ∈ tokens, t.kind ≠ .eof)
    (ended : ending = [] ∨ ∃ last, last.kind = .eof ∧ ending = [last]) :
    ∃ last, last.kind = .eof ∧ Stream.withEnd (tokens ++ ending) = tokens ++ [last] := by
  rcases ended with rfl | ⟨last, kind, rfl⟩
  · exact ⟨_, kind_missingEnd _, by rw [List.append_nil, withEnd_of_open visible]⟩
  · refine ⟨last, kind, ?_⟩
    unfold withEnd
    rw [List.getLast?_concat]
    simp only [kind, if_true]

/-- The stream over tokens that write a program spells the program, up to an end token. -/
theorem Stream.ofTokens_spells {tokens ending : List Token} {symbols : List Symbol}
    (writes : List.Forall₂ Token.Writes tokens symbols)
    (parts : symbols.all Symbol.isPart = true)
    (ended : ending = [] ∨ ∃ last, last.kind = .eof ∧ ending = [last]) :
    ∃ s', s'.kind = .eof ∧ (Stream.ofTokens (tokens ++ ending)).Spells symbols s' ∧
      symbols.length ≤ (Stream.ofTokens (tokens ++ ending)).ahead.length := by
  have visible := visible_of_writes writes parts
  have kept : (tokens ++ ending).filter (!·.kind.isTrivia) = tokens ++ ending := by
    refine List.filter_eq_self.2 fun t ht => ?_
    rcases List.mem_append.1 ht with ht | ht
    · rw [(visible t ht).2]
      rfl
    · rcases ended with rfl | ⟨last, kind, rfl⟩
      · cases ht
      · rw [List.mem_singleton.1 ht, kind]
        rfl
  obtain ⟨last, kind, withEnd⟩ := withEnd_append (fun t ht => (visible t ht).1) ended
  have spelled := spells_of_writes writes parts last []
  refine ⟨⟨tokens.reverse ++ [], last, []⟩, kind, ?_⟩
  unfold ofTokens
  rw [kept, withEnd, ← writes.length_eq]
  cases tokens with
  | nil => exact ⟨spelled last [] rfl, Nat.le_refl _⟩
  | cons first rest => exact ⟨spelled first (rest ++ [last]) rfl, by simp⟩

/-- Reading the spelling of a canonical program gives the program back, up to the places it was
read from, and reports no problem, in every mode and for every layout of the tokens. -/
theorem canonical_program_read_back (mode : Mode) {p : List Stmt} (h : ∀ st ∈ p, st.Canonical)
    {tokens ending : List Token} (writes : List.Forall₂ Token.Writes tokens (Stmt.spellAll p))
    (ended : ending = [] ∨ ∃ last, last.kind = .eof ∧ ending = [last]) :
    (Program.ofTokens mode (tokens ++ ending)).errors = [] ∧
      (Program.ofTokens mode (tokens ++ ending)).statements.map Stmt.bare = p.map Stmt.bare := by
  obtain ⟨s', kind, spelled, length⟩ :=
    Stream.ofTokens_spells writes (Stmt.all_spellAll p) ended
  have paid : 32 * (Stmt.spellAll p).length <
      (Stream.ofTokens (tokens ++ ending)).nestingBound := by
    unfold Stream.nestingBound
    omega
  obtain ⟨p', read, same⟩ := readProgram_spelled mode h _ _ s' [] spelled kind paid
  unfold Program.ofTokens Program.ofStream
  rw [read]
  exact ⟨rfl, same⟩

/-! ### A program with every kind of ambiguity -/

/-- A token that writes a symbol, without a place. -/
def Symbol.token (x : Symbol) : Token where
  kind := x.kind
  lexeme :=
    match x with
    | name text => text
    | _ => ""
  line := 1
  literal :=
    match x with
    | literal value => some value
    | _ => none
  span := .nowhere

theorem Symbol.writes_token (x : Symbol) : x.token.Writes x := by
  cases x with
  | fixed kind => rfl
  | name text => exact ⟨rfl, rfl⟩
  | literal value => cases value <;> exact ⟨rfl, rfl⟩

theorem Symbol.writes_tokens (symbols : List Symbol) :
    List.Forall₂ Token.Writes (symbols.map Symbol.token) symbols :=
  List.forall₂_map_left_iff.2 (List.forall₂_same.2 fun x _ => x.writes_token)

/-- A name without a place. -/
def plainName (text : String) : Name := ⟨text, .nowhere⟩

/-- A variable without a place. -/
def plainIdent (text : String) : Expr := .ident (plainName text)

/-- `a = -b * c++ ? d.e[f](g) : h ?? i` as an expression. -/
def tangledExpr : Expr :=
  .assign .nowhere (plainIdent "a")
    (.ternary .nowhere
      (.binary .nowhere .mul (.unary .nowhere .neg (plainIdent "b"))
        (.takeThenStep .nowhere .increment (plainIdent "c")))
      (.call .nowhere
        (.index .nowhere (.field .nowhere (plainIdent "d") (plainName "e")) (plainIdent "f"))
        [plainIdent "g"])
      (.logical .nowhere .coalesce (plainIdent "h") (plainIdent "i")))

theorem tangledExpr_canonical : tangledExpr.Canonical := by
  refine .assign (.ident _) (.ternary ?_ ?_ ?_ (by decide) (by decide)) (by decide)
  · exact .infixed (.binary .mul) (.unary (.ident _) (by decide))
      (.takeThenStep (.ident _) (by decide) (by decide)) (by decide) (by decide) (by decide)
  · refine .call (.index (.field (.ident _) (by decide)) (.ident _) (by decide)) (by decide) ?_
    intro e he
    rw [List.mem_singleton.1 he]
    exact .ident _
  · exact .infixed (.logical .coalesce) (.ident _) (.ident _) (by decide) (by decide) (by decide)

/-- A class with a superclass, a field, a method and a constructor, and a branch whose `else` must
not move into the inner branch. -/
def tangledProgram : List Stmt :=
  [.classDecl
    { name := plainName "A"
      superclass := some (plainName "B")
      fields := [⟨plainName "x", tangledExpr⟩]
      methods := [⟨plainName "m", [plainName "p", plainName "q"], [.ret .nowhere none], true⟩]
      constructor := some ⟨plainName "A", [], [], true⟩ },
    .branch (plainIdent "a")
      (.block [.branch (plainIdent "b") (.expr tangledExpr) none])
      (some (.loop (plainIdent "c") (.expr (plainIdent "d"))))]

theorem tangledProgram_canonical : ∀ st ∈ tangledProgram, st.Canonical := by
  intro st mem
  rcases List.mem_cons.1 mem with rfl | mem
  · refine .classDecl ?_ (by decide) ?_ (by decide) ?_
    · intro field mem
      rw [List.mem_singleton.1 mem]
      exact tangledExpr_canonical
    · intro method mem st inside
      rw [List.mem_singleton.1 mem] at inside
      rw [List.mem_singleton.1 inside]
      exact .ret nofun
    · intro method mem st inside
      cases mem
      cases inside
  · rw [List.mem_singleton.1 mem]
    refine .branch (.ident _) (.block ?_) rfl ?_ (by simp [Stmt.isPlain]) fun _ => rfl
    · intro st mem
      rw [List.mem_singleton.1 mem]
      exact .branch (.ident _) (.expr tangledExpr_canonical) rfl nofun nofun nofun
    · intro st mem
      cases mem
      exact .loop (.ident _) (.expr (.ident _)) rfl

/-- The program above is read back from a file. -/
theorem tangled_program_read_back :
    (∀ st ∈ tangledProgram, st.Canonical) ∧
      (Program.ofTokens .file ((Stmt.spellAll tangledProgram).map Symbol.token ++ [])).errors = [] ∧
      (Program.ofTokens .file
        ((Stmt.spellAll tangledProgram).map Symbol.token ++ [])).statements.map Stmt.bare =
          tangledProgram.map Stmt.bare :=
  ⟨tangledProgram_canonical, canonical_program_read_back .file tangledProgram_canonical
    (Symbol.writes_tokens _) (.inl rfl)⟩

end Scriptlet
