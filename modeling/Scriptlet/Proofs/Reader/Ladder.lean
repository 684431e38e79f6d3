import Scriptlet.Proofs.Sequence
import Scriptlet.Proofs.Spelling

/-!
# Climbing the precedence ladder

Reading the spelling of a canonical expression gives the expression back, up to spans, and leaves
the stream at the token after it. The statement has to be general in two ways. An operand is not
read from the foot of the ladder but from some level of it (`Expr.readFrom`), and what follows it
is any token that does not continue it at that level (`stops`). Two kinds of expressions are read
by loops, so for them the statement is about the state in which the loop is left:

* an infix expression is read by the loop of its level, one operator after the other
  (`Ladder.loop`);
* a chain is read by the loop over fields, indices and calls (`Ladder.chain`).

`Expr.Canonical.ladder` is the induction over the tree.
-/

namespace Scriptlet

/-! ## Streams that spell something -/

/-- The tokens from `s` up to, and not including, the one under `s'` write the symbols. -/
inductive Stream.Spells : Stream → List Symbol → Stream → Prop
  | nil (s : Stream) : Spells s [] s
  | cons {s s' : Stream} {x : Symbol} {xs : List Symbol} : s.here.Writes x →
      Spells s.advance xs s' → Spells s (x :: xs) s'

namespace Stream.Spells

variable {s s' : Stream} {xs ys : List Symbol}

theorem split (h : s.Spells (xs ++ ys) s') : ∃ s₁, s.Spells xs s₁ ∧ s₁.Spells ys s' := by
  induction xs generalizing s with
  | nil => exact ⟨s, .nil s, h⟩
  | cons x xs ih =>
    cases h with
    | cons here rest =>
      obtain ⟨s₁, first, second⟩ := ih rest
      exact ⟨s₁, .cons here first, second⟩

theorem kind_eq {x : Symbol} (h : s.Spells (x :: xs) s') : s.kind = x.kind := by
  cases h with
  | cons here rest => exact here.kind_eq

theorem tail {x : Symbol} (h : s.Spells (x :: xs) s') : s.advance.Spells xs s' := by
  cases h with
  | cons here rest => exact rest

theorem head {x : Symbol} (h : s.Spells (x :: xs) s') : s.here.Writes x := by
  cases h with
  | cons here rest => exact here

theorem eq_of_nil (h : s.Spells [] s') : s' = s := by
  cases h
  rfl

end Stream.Spells

/-! ## Primitive steps -/

namespace Reading

variable {s : Stream}

theorem expect_of_kind {kind : TokenKind} {expected : Expectation} (h : s.kind = kind) :
    expect kind expected s = .ok s.here s.advance := by
  rw [expect, if_pos h]
  rfl

theorem eat_of_kind {kind : TokenKind} (h : s.kind = kind) : eat kind s = .ok true s.advance := by
  rw [eat, if_pos h]

theorem eat_of_ne {kind : TokenKind} (h : s.kind ≠ kind) : eat kind s = .ok false s := by
  rw [eat, if_neg h]

end Reading

/-! ## First and following tokens -/

/-- Kinds of tokens that continue a chain. -/
def continuesChain : TokenKind → Bool
  | .equal | .dot | .leftBracket | .leftParen => true
  | kind => (BinaryOp.ofCompound? kind).isSome

/-- Whether a token after an expression read from a level of the ladder is left for others. -/
def stops (k : Nat) (kind : TokenKind) : Bool :=
  !continuesChain kind && (11 ≤ k || (StepOp.ofToken? kind).isNone) &&
    ((Infix.ofToken? kind).all fun op => op.level + 1 < k) && (k != 0 || kind != .question)

/-- Whether an expression read from a level of the ladder can start with a token. -/
def starts (k : Nat) : TokenKind → Bool
  | .numberLiteral | .textLiteral | .kwTrue | .kwFalse | .kwNull | .leftBracket | .leftParen
  | .identifier => true
  | .plusPlus | .minusMinus => k ≤ 9
  | .bang | .minus => k ≤ 8
  | _ => false

theorem stops_mono {k k' : Nat} {kind : TokenKind} (h : stops k kind = true) (hk : k ≤ k') :
    stops k' kind = true := by
  simp only [stops, Bool.and_eq_true, Bool.or_eq_true, bne_iff_ne, ne_eq, decide_eq_true_eq] at h ⊢
  obtain ⟨⟨⟨chain, step⟩, operator⟩, choice⟩ := h
  refine ⟨⟨⟨chain, step.imp (by omega) id⟩, ?_⟩, choice.imp (by omega) id⟩
  cases hi : Infix.ofToken? kind with
  | none => rfl
  | some op =>
    simp only [hi, Option.all_some, decide_eq_true_eq] at operator ⊢
    omega

theorem starts_mono {k k' : Nat} {kind : TokenKind} (h : starts k' kind = true) (hk : k ≤ k') :
    starts k kind = true := by
  unfold starts at h ⊢
  split at h <;> simp_all <;> omega

/-- What follows an expression has to stop it at its right edge too, where an assignment is read
from the foot of the ladder. -/
def Expr.edge (e : Expr) (k : Nat) : Nat := if e.endsInAssignment then 0 else k

theorem Expr.edge_mono (e : Expr) {k k' : Nat} (hk : k ≤ k') : e.edge k ≤ e.edge k' := by
  unfold edge
  split
  · exact Nat.le_refl _
  · exact hk

theorem Expr.edge_le (e : Expr) (k : Nat) : e.edge k ≤ k := by
  unfold edge
  split <;> omega

/-- A canonical expression starts with a token that fits its level. -/
theorem Expr.Canonical.start {e : Expr} (h : e.Canonical) :
    ∃ x xs, e.spelling = x :: xs ∧ starts e.level x.kind = true ∧
      (e.isChain = true → x.kind = .identifier) := by
  induction h with
  | literal span value =>
    refine ⟨value.symbol, [], rfl, ?_, nofun⟩
    cases value with
    | bool b => cases b <;> rfl
    | _ => rfl
  | ident name => exact ⟨_, [], rfl, rfl, fun _ => rfl⟩
  | group _ _ => exact ⟨_, _, rfl, rfl, nofun⟩
  | array _ _ => exact ⟨_, _, rfl, rfl, nofun⟩
  | @unary span op operand _ _ _ => exact ⟨_, _, rfl, by cases op <;> rfl, nofun⟩
  | @stepThenTake span op operand _ _ _ => exact ⟨_, _, rfl, by cases op <;> rfl, nofun⟩
  | takeThenStep _ level _ ih =>
    obtain ⟨x, xs, spelled, start, _⟩ := ih
    have above : 10 ≤ _ := Nat.le_trans (by decide) level
    exact ⟨x, _, by rw [spelling, spelled]; rfl, starts_mono start above, nofun⟩
  | infixed op _ _ level _ _ ihLeft _ =>
    obtain ⟨x, xs, spelled, start, _⟩ := ihLeft
    refine ⟨x, _, by rw [spelling_apply, spelled]; rfl, ?_, by simp⟩
    rw [level_apply]
    exact starts_mono start level
  | ternary _ _ _ _ _ ihCondition _ _ =>
    obtain ⟨x, xs, spelled, start, _⟩ := ihCondition
    exact ⟨x, _, by rw [spelling, spelled]; rfl, starts_mono start (Nat.zero_le _), nofun⟩
  | assign _ _ chain ih _ =>
    obtain ⟨x, xs, spelled, start, name⟩ := ih
    exact ⟨x, _, by rw [spelling, spelled]; rfl, by rw [name chain]; rfl, nofun⟩
  | index _ _ chain ih _ =>
    obtain ⟨x, xs, spelled, start, name⟩ := ih
    exact ⟨x, _, by rw [spelling, spelled]; rfl, by rw [name chain]; rfl, fun _ => name chain⟩
  | field _ chain ih =>
    obtain ⟨x, xs, spelled, start, name⟩ := ih
    exact ⟨x, _, by rw [spelling, spelled]; rfl, by rw [name chain]; rfl, fun _ => name chain⟩
  | call _ chain _ ih _ =>
    obtain ⟨x, xs, spelled, start, name⟩ := ih
    exact ⟨x, _, by rw [spelling, spelled]; rfl, by rw [name chain]; rfl, fun _ => name chain⟩

/-! ## Reading from a level -/

namespace Expr

/-- Read from a level of the ladder. -/
def readFrom (k n : Nat) : Reading Expr :=
  if k = 0 then Expr.read n
  else if k ≤ 7 then Expr.readLevel n (k - 1)
  else if k = 8 then Expr.readSigned n
  else if k = 9 then Expr.readStepped n
  else if k = 10 then Expr.readOperand n
  else Expr.readPrimary n

/-- Reading the spelling of `e`, followed by a token that stops it, gives an expression of the same
shape. -/
def Taken (r : Reading Expr) (e : Expr) (k : Nat) : Prop :=
  ∀ s s', s.Spells e.spelling s' → stops (e.edge k) s'.kind = true →
    ∃ e', r s = .ok e' s' ∧ e'.bare = e.bare

/-- The bound on the nesting that reading `e` from level `k` needs: each token pays for two
productions on every level. -/
def Paid (e : Expr) (k n : Nat) : Prop := 32 * e.spelling.length ≤ n + 2 * k

theorem Canonical.length_pos {e : Expr} (h : e.Canonical) : 0 < e.spelling.length := by
  obtain ⟨x, xs, spelled, -⟩ := h.start
  rw [spelled]
  exact Nat.succ_pos _

/-- The first token of a canonical expression. -/
theorem Canonical.starts_kind {e : Expr} (h : e.Canonical) {s s' : Stream}
    (spelled : s.Spells e.spelling s') : starts e.level s.kind = true := by
  obtain ⟨x, xs, spelling, start, -⟩ := h.start
  rw [spelling] at spelled
  rw [spelled.kind_eq]
  exact start

/-! ### One level down -/

variable {e : Expr} {n : Nat}

theorem kind_bind {α : Type} {s : Stream} {k : TokenKind → Reading α} :
    (Reading.kind >>= k) s = k s.kind s := bind_of_ok rfl

theorem next_bind {α : Type} {s : Stream} {k : Token → Reading α} :
    (Reading.next >>= k) s = k s.here s.advance := bind_of_ok rfl

/-- A level of infix operators ends at a token that none of its operators is written by. -/
theorem readLevelRest_of_stops {k : Nat} {left : Expr} {s : Stream}
    (h : stops (k + 1) s.kind = true) : Expr.readLevelRest (n + 1) k left s = .ok left s := by
  have none : Infix.at? k s.kind = none := by
    simp only [stops, Bool.and_eq_true] at h
    have below := h.1.2
    unfold Infix.at?
    cases hi : Infix.ofToken? s.kind with
    | none => rfl
    | some op =>
      rw [hi] at below
      simp only [Option.all_some, decide_eq_true_eq] at below
      simp only [Option.filter_eq_none_iff, Option.some.injEq, forall_eq', beq_iff_eq]
      omega
  unfold Expr.readLevelRest
  rw [kind_bind, none]
  rfl

theorem readLevel_eq_bind {k : Nat} (hk : k < 7) :
    Expr.readLevel (n + 1) k =
      (Expr.readLevel n (k + 1) >>= fun left => Expr.readLevelRest n k left) := by
  rw [Expr.readLevel]
  exact if_pos hk

theorem readLevel_top : Expr.readLevel (n + 1) 7 = Expr.readSigned n := by
  unfold Expr.readLevel
  rfl

theorem readFrom_level {k : Nat} (hk : k < 7) : readFrom (k + 1) n = Expr.readLevel n k := by
  unfold readFrom
  rw [if_neg (by omega), if_pos (by omega)]
  rfl

/-- Above the infix operators stand the signs, one production further up. -/
theorem Taken.readLevel {k : Nat} (hk : k ≤ 7) (positive : 0 < e.spelling.length)
    (taken : ∀ n, e.Paid (k + 1) n → Taken (readFrom (k + 1) n) e (k + 1))
    (paid : 32 * e.spelling.length + 1 ≤ n + 2 * (k + 1)) :
    Taken (Expr.readLevel n k) e (k + 1) := by
  rcases Nat.lt_or_eq_of_le hk with lower | rfl
  · rw [← readFrom_level lower]
    exact taken n (by unfold Paid; omega)
  · obtain ⟨n, rfl⟩ : ∃ m, n = m + 1 := ⟨n - 1, by omega⟩
    rw [readLevel_top]
    exact taken n (by unfold Paid; omega)

/-- What is read back from one level is read back from the level below it. -/
theorem Canonical.down (h : e.Canonical) {k : Nat} (level : k + 1 ≤ e.level)
    (taken : ∀ n, e.Paid (k + 1) n → Taken (readFrom (k + 1) n) e (k + 1))
    (paid : e.Paid k n) (top : e.level ≤ 11) : Taken (readFrom k n) e k := by
  have positive := h.length_pos
  unfold Paid at paid
  obtain ⟨n, rfl⟩ : ∃ m, n = m + 1 := ⟨n - 1, by omega⟩
  intro s s' spelled follow
  have followUp := stops_mono follow (e.edge_mono (Nat.le_succ k))
  have stopped := stops_mono follow (e.edge_le k)
  have start := h.starts_kind spelled
  -- the rungs differ in how they read, but each asks the rung above first and then looks
  -- for a token that would make it go on
  have ladder : k = 0 ∨ (∃ j, k = j + 1 ∧ j < 7) ∨ k = 8 ∨ k = 9 ∨ k = 10 := by
    rcases Nat.lt_or_ge k 8 with low | high
    · cases k with
      | zero => exact .inl rfl
      | succ j => exact .inr (.inl ⟨j, rfl, by omega⟩)
    · omega
  rcases ladder with rfl | ⟨j, rfl, hj⟩ | rfl | rfl | rfl
  · -- a choice
    obtain ⟨e', read, same⟩ := taken n (by unfold Paid; omega) s s' spelled followUp
    have noChoice : s'.kind ≠ .question := by
      rintro question
      rw [question] at stopped
      cases stopped
    refine ⟨e', ?_, same⟩
    rw [readFrom_level (by decide)] at read
    show Expr.read (n + 1) s = _
    unfold Expr.read
    rw [bind_of_ok read, bind_of_ok (Reading.eat_of_ne noChoice)]
    rfl
  · -- an infix level
    have operand := Taken.readLevel (n := n) (by omega) positive taken (by omega)
    obtain ⟨e', read, same⟩ := operand s s' spelled followUp
    refine ⟨e', ?_, same⟩
    obtain ⟨n, rfl⟩ : ∃ m, n = m + 1 := ⟨n - 1, by omega⟩
    rw [readFrom_level hj, readLevel_eq_bind hj, bind_of_ok read]
    exact readLevelRest_of_stops stopped
  · -- a sign
    obtain ⟨e', read, same⟩ := taken n (by unfold Paid; omega) s s' spelled followUp
    refine ⟨e', ?_, same⟩
    show Expr.readSigned (n + 1) s = _
    have noSign : UnaryOp.ofToken? s.kind = none := by
      have := starts_mono start level
      revert this
      cases s.kind <;> decide
    unfold Expr.readSigned
    rw [kind_bind, noSign]
    exact read
  · -- a step before the operand
    obtain ⟨e', read, same⟩ := taken n (by unfold Paid; omega) s s' spelled followUp
    refine ⟨e', ?_, same⟩
    show Expr.readStepped (n + 1) s = _
    have noStep : StepOp.ofToken? s.kind = none := by
      have := starts_mono start level
      revert this
      cases s.kind <;> decide
    unfold Expr.readStepped
    rw [kind_bind, noStep]
    exact read
  · -- a step after the operand
    obtain ⟨e', read, same⟩ := taken n (by unfold Paid; omega) s s' spelled followUp
    refine ⟨e', ?_, same⟩
    change Expr.readPrimary n s = _ at read
    show Expr.readOperand (n + 1) s = _
    have noStep : StepOp.ofToken? s'.kind = none := by
      simp only [stops, Bool.and_eq_true, Bool.or_eq_true, Option.isNone_iff_eq_none] at stopped
      exact stopped.1.1.2.resolve_left (by decide)
    unfold Expr.readOperand
    rw [bind_of_ok read, kind_bind, noStep]
    rfl

theorem level_le (e : Expr) : e.level ≤ 11 := by
  cases e with
  | binary span op left right =>
    have bound : (Infix.binary op).level < 7 := (Infix.binary op).level_lt
    show (Infix.binary op).level + 1 ≤ 11
    omega
  | logical span op left right =>
    have bound : (Infix.logical op).level < 7 := (Infix.logical op).level_lt
    show (Infix.logical op).level + 1 ≤ 11
    omega
  | _ => simp [level]

/-- What is read back from its own level is read back from every level below it. -/
theorem Canonical.taken (h : e.Canonical)
    (own : ∀ n, e.Paid e.level n → Taken (readFrom e.level n) e e.level) :
    ∀ k n, k ≤ e.level → e.Paid k n → Taken (readFrom k n) e k := by
  have below : ∀ d k n, k + d = e.level → e.Paid k n → Taken (readFrom k n) e k := by
    intro d
    induction d with
    | zero =>
      intro k n hk paid
      obtain rfl : k = e.level := hk
      exact own n paid
    | succ d ih =>
      intro k n hk paid
      exact h.down (by omega) (fun n paid => ih (k + 1) n (by omega) paid) paid e.level_le
  intro k n hk paid
  exact below (e.level - k) k n (by omega) paid

/-! ## Expressions that are read back -/

/-- An expression that is read back from every level of the ladder up to its own. -/
structure Ladder (e : Expr) : Prop where
  canonical : e.Canonical
  taken : ∀ k n, k ≤ e.level → e.Paid k n → Taken (readFrom k n) e k
  /-- The loop of an infix level arrives behind `e` with `e` as its left operand. -/
  loop : ∀ k n s s', k < 7 → k + 1 ≤ e.level → e.Paid (k + 1) n → s.Spells e.spelling s' →
    stops (e.edge (k + 2)) s'.kind = true →
    ∃ n' e', n ≤ n' + e.spelling.length ∧ e'.bare = e.bare ∧
      Expr.readLevel n k s = Expr.readLevelRest n' k e' s'
  /-- The loop of a chain arrives behind `e` with `e` as its target. -/
  chain : ∀ n s s', e.isChain = true → e.Paid 11 n → s.Spells e.spelling s' →
    ∃ n' e', n ≤ n' + e.spelling.length ∧ e'.bare = e.bare ∧
      Expr.readPrimary n s = Expr.readChain n' e' s'

/-- An operand above an infix level is read before the loop of that level starts. -/
theorem Canonical.loop_above (h : e.Canonical)
    (taken : ∀ k n, k ≤ e.level → e.Paid k n → Taken (readFrom k n) e k) {k : Nat} (hk : k < 7)
    (level : k + 2 ≤ e.level) (paid : e.Paid (k + 1) n) {s s' : Stream}
    (spelled : s.Spells e.spelling s') (follow : stops (e.edge (k + 2)) s'.kind = true) :
    ∃ n' e', n ≤ n' + e.spelling.length ∧ e'.bare = e.bare ∧
      Expr.readLevel n k s = Expr.readLevelRest n' k e' s' := by
  have positive := h.length_pos
  unfold Paid at paid
  obtain ⟨n, rfl⟩ : ∃ m, n = m + 1 := ⟨n - 1, by omega⟩
  have operand := Taken.readLevel (n := n) (k := k + 1) (by omega) positive
    (fun n paid => taken (k + 2) n level paid) (by omega)
  obtain ⟨e', read, same⟩ := operand s s' spelled follow
  refine ⟨n, e', by omega, same, ?_⟩
  rw [readLevel_eq_bind hk, bind_of_ok read]

/-- Expressions that are neither infix nor chains need no statement about a loop. -/
theorem Canonical.ladder_of_own (h : e.Canonical) (level : e.level = 0 ∨ 8 ≤ e.level)
    (chain : e.isChain = false)
    (own : ∀ n, e.Paid e.level n → Taken (readFrom e.level n) e e.level) : Ladder e where
  canonical := h
  taken := h.taken own
  loop := fun k n s s' hk hl paid spelled follow =>
    h.loop_above (h.taken own) hk (by omega) paid spelled follow
  chain := fun n s s' hc => by rw [chain] at hc; cases hc

/-- A whole expression, between tokens that are no part of any. -/
theorem Ladder.read (h : Ladder e) (paid : 32 * e.spelling.length ≤ n) {s s' : Stream}
    (spelled : s.Spells e.spelling s') (follow : stops 0 s'.kind = true) :
    ∃ e', Expr.read n s = .ok e' s' ∧ e'.bare = e.bare :=
  h.taken 0 n (Nat.zero_le _) paid s s' spelled (stops_mono follow (Nat.zero_le _))

/-! ### Primaries -/

theorem here_bind {α : Type} {s : Stream} {k : Token → Reading α} :
    (Reading.here >>= k) s = k s.here s := bind_of_ok rfl

theorem ladder_literal (span : Span) (value : Constant) : Ladder (.literal span value) := by
  refine (Canonical.literal span value).ladder_of_own (.inr (by simp [level])) rfl fun n paid => ?_
  intro s s' spelled _
  have behind := spelled.tail.eq_of_nil
  have writes := spelled.head
  simp only [Paid, spelling, level, List.length_singleton] at paid
  obtain ⟨n, rfl⟩ : ∃ m, n = m + 1 := ⟨n - 1, by omega⟩
  refine ⟨.literal s.here.span value, ?_, rfl⟩
  show Expr.readPrimary (n + 1) s = _
  unfold Expr.readPrimary
  rw [here_bind, behind]
  cases value with
  | null => simp only [show s.here.kind = .kwNull from writes]; rfl
  | bool b =>
    cases b with
    | true => simp only [show s.here.kind = .kwTrue from writes]; rfl
    | false => simp only [show s.here.kind = .kwFalse from writes]; rfl
  | number x => simp only [writes.1, writes.2]; rfl
  | text x => simp only [writes.1, writes.2]; rfl

theorem Ladder.group {inner : Expr} (span : Span) (h : Ladder inner) :
    Ladder (.group span inner) := by
  refine (Canonical.group h.canonical).ladder_of_own (.inr (by simp [level])) rfl fun n paid => ?_
  intro s s' spelled _
  simp only [Paid, spelling, level, List.length_cons, List.length_append, List.length_nil] at paid
  obtain ⟨n, rfl⟩ : ∃ m, n = m + 1 := ⟨n - 1, by omega⟩
  rw [spelling] at spelled
  obtain ⟨s₁, inside, close⟩ := spelled.tail.split
  have closed : s₁.kind = .rightParen := close.kind_eq
  obtain ⟨inner', read, same⟩ := h.read (n := n) (by omega) inside (by rw [closed]; rfl)
  refine ⟨.group (s.here.span.merge s₁.here.span) inner', ?_, by simp only [bare, same]⟩
  show Expr.readPrimary (n + 1) s = _
  unfold Expr.readPrimary
  rw [here_bind]
  simp only [show s.here.kind = .leftParen from spelled.kind_eq]
  rw [next_bind, bind_of_ok read, bind_of_ok (Reading.expect_of_kind closed),
    close.tail.eq_of_nil]
  rfl

/-- At the first token of an expression, the elements of an array go on. -/
theorem readElements_of_starts {s : Stream} (start : starts 0 s.kind = true) :
    Expr.readElements (n + 1) s =
      (do
        let element ← Expr.read n
        let _ ← Reading.eat .comma
        let (rest, close) ← Expr.readElements n
        return (element :: rest, close) : Reading (List Expr × Span)) s := by
  rw [Expr.readElements, kind_bind]
  cases kind : s.kind <;> first | rfl | (rw [kind] at start; cases start)

/-- The elements of an array, up to the closing bracket. -/
theorem readElements_spelled {elements : List Expr} (h : ∀ e ∈ elements, Ladder e) :
    ∀ n s s', s.Spells (separated (spellings elements) ++ [.fixed .rightBracket]) s' →
      32 * (separated (spellings elements)).length < n →
      ∃ read close, Expr.readElements n s = .ok (read, close) s' ∧
        bareAll read = bareAll elements := by
  induction elements with
  | nil =>
    intro n s s' spelled paid
    obtain ⟨n, rfl⟩ : ∃ m, n = m + 1 := ⟨n - 1, by omega⟩
    refine ⟨[], s.here.span, ?_, rfl⟩
    unfold Expr.readElements
    rw [kind_bind]
    simp only [show s.kind = .rightBracket from spelled.kind_eq]
    rw [next_bind, spelled.tail.eq_of_nil]
    rfl
  | cons e rest ih =>
    intro n s s' spelled paid
    obtain ⟨n, rfl⟩ : ∃ m, n = m + 1 := ⟨n - 1, by omega⟩
    have he := h e List.mem_cons_self
    have ih := ih fun x hx => h x (List.mem_cons_of_mem _ hx)
    simp only [spellings, separated, List.length_append] at paid
    rw [spellings, separated, List.append_assoc] at spelled
    obtain ⟨s₁, first, others⟩ := spelled.split
    have start := starts_mono (he.canonical.starts_kind first) (Nat.zero_le _)
    -- behind the element stands a comma or the bracket; the comma is passed
    obtain ⟨follow, eaten, s₂, ate, others'⟩ : stops 0 s₁.kind = true ∧ ∃ eaten s₂,
        Reading.eat .comma s₁ = .ok eaten s₂ ∧
        s₂.Spells (separated (spellings rest) ++ [.fixed .rightBracket]) s' := by
      cases rest with
      | nil =>
        have closed : s₁.kind = .rightBracket := others.kind_eq
        refine ⟨by rw [closed]; rfl, false, s₁, Reading.eat_of_ne ?_, others⟩
        rw [closed]
        decide
      | cons e₂ rest =>
        have comma : s₁.kind = .comma := others.kind_eq
        exact ⟨by rw [comma]; rfl, true, s₁.advance, Reading.eat_of_kind comma, others.tail⟩
    have shorter : (separated (spellings rest)).length ≤ (afterCommas (spellings rest)).length := by
      cases rest with
      | nil => exact Nat.le_refl _
      | cons e₂ rest => exact Nat.le_succ _
    have positive := he.canonical.length_pos
    obtain ⟨e', read, same⟩ := he.read (n := n) (by omega) first follow
    obtain ⟨read', close, reads, sames⟩ := ih n s₂ s' others' (by omega)
    refine ⟨e' :: read', close, ?_, by simp only [bareAll, same, sames]⟩
    rw [readElements_of_starts start, bind_of_ok read, bind_of_ok ate, bind_of_ok reads]
    rfl

theorem Ladder.array {elements : List Expr} (span : Span) (h : ∀ e ∈ elements, Ladder e) :
    Ladder (.array span elements) := by
  refine (Canonical.array fun e he => (h e he).canonical).ladder_of_own (.inr (by simp [level])) rfl
    fun n paid => ?_
  intro s s' spelled _
  simp only [Paid, spelling, level, List.length_cons, List.length_append, List.length_nil] at paid
  obtain ⟨n, rfl⟩ : ∃ m, n = m + 1 := ⟨n - 1, by omega⟩
  obtain ⟨read, close, reads, same⟩ := readElements_spelled h n _ s' spelled.tail (by omega)
  refine ⟨.array (s.here.span.merge close) read, ?_, by simp only [bare, same]⟩
  show Expr.readPrimary (n + 1) s = _
  unfold Expr.readPrimary
  rw [here_bind]
  simp only [show s.here.kind = .leftBracket from spelled.kind_eq]
  rw [next_bind, bind_of_ok reads]
  rfl

/-! ### Signs and steps -/

theorem Ladder.unary {operand : Expr} (span : Span) (op : UnaryOp) (h : Ladder operand)
    (above : 8 ≤ operand.level) : Ladder (.unary span op operand) := by
  refine (Canonical.unary h.canonical above).ladder_of_own (.inr (by simp [level])) rfl
    fun n paid => ?_
  intro s s' spelled follow
  simp only [Paid, spelling, level, List.length_cons] at paid
  obtain ⟨n, rfl⟩ : ∃ m, n = m + 1 := ⟨n - 1, by omega⟩
  obtain ⟨operand', read, same⟩ :=
    h.taken 8 n above (by unfold Paid; omega) _ s' spelled.tail follow
  change Expr.readSigned n _ = _ at read
  refine ⟨.unary (s.here.span.merge operand'.span) op operand', ?_, by simp only [bare, same]⟩
  show Expr.readSigned (n + 1) s = _
  unfold Expr.readSigned
  rw [kind_bind, show s.kind = op.token from spelled.kind_eq, UnaryOp.ofToken?_token]
  simp only [next_bind]
  rw [bind_of_ok read]
  rfl

theorem Ladder.stepThenTake {operand : Expr} (span : Span) (op : StepOp) (h : Ladder operand)
    (above : 10 ≤ operand.level) : Ladder (.stepThenTake span op operand) := by
  refine (Canonical.stepThenTake h.canonical above).ladder_of_own (.inr (by simp [level])) rfl
    fun n paid => ?_
  intro s s' spelled follow
  simp only [Paid, spelling, level, List.length_cons] at paid
  obtain ⟨n, rfl⟩ : ∃ m, n = m + 1 := ⟨n - 1, by omega⟩
  have positive := h.canonical.length_pos
  have follow' : stops (operand.edge 10) s'.kind = true :=
    stops_mono follow (operand.edge_mono (show 9 ≤ 10 by decide))
  obtain ⟨operand', read, same⟩ :=
    h.taken 10 n above (by unfold Paid; omega) _ s' spelled.tail follow'
  change Expr.readOperand n _ = _ at read
  refine ⟨.stepThenTake (s.here.span.merge operand'.span) op operand', ?_,
    by simp only [bare, same]⟩
  show Expr.readStepped (n + 1) s = _
  unfold Expr.readStepped
  rw [kind_bind, show s.kind = op.token from spelled.kind_eq, StepOp.ofToken?_token]
  simp only [next_bind]
  rw [bind_of_ok read]
  rfl

theorem Ladder.takeThenStep {operand : Expr} (span : Span) (op : StepOp) (h : Ladder operand)
    (above : 11 ≤ operand.level) (closed : operand.endsInAssignment = false) :
    Ladder (.takeThenStep span op operand) := by
  refine (Canonical.takeThenStep h.canonical above closed).ladder_of_own (.inr (by simp [level]))
    rfl fun n paid => ?_
  intro s s' spelled _
  simp only [Paid, spelling, level, List.length_append, List.length_singleton] at paid
  obtain ⟨n, rfl⟩ : ∃ m, n = m + 1 := ⟨n - 1, by omega⟩
  obtain ⟨s₁, inside, step⟩ := Stream.Spells.split spelled
  have stepped : s₁.kind = op.token := step.kind_eq
  have follow : stops (operand.edge 11) s₁.kind = true := by
    rw [edge, closed, stepped]
    cases op <;> rfl
  obtain ⟨operand', read, same⟩ := h.taken 11 n above (by unfold Paid; omega) s s₁ inside follow
  change Expr.readPrimary n _ = _ at read
  refine ⟨.takeThenStep (operand'.span.merge s₁.here.span) op operand', ?_,
    by simp only [bare, same]⟩
  show Expr.readOperand (n + 1) s = _
  unfold Expr.readOperand
  rw [bind_of_ok read, kind_bind, stepped, StepOp.ofToken?_token]
  simp only [next_bind]
  rw [step.tail.eq_of_nil]
  rfl

/-! ### Operators between operands -/

theorem stops_infix {k : Nat} (op : Infix) (h : op.level + 1 < k) : stops k op.token = true := by
  have chain : continuesChain op.token = false := by rcases op with op | op <;> cases op <;> rfl
  have step : StepOp.ofToken? op.token = none := by rcases op with op | op <;> cases op <;> rfl
  have choice : (op.token != .question) = true := by rcases op with op | op <;> cases op <;> rfl
  simp [stops, chain, step, choice, h]

/-- The loop of a level takes in an operator of that level and its right operand. -/
theorem readLevelRest_infix {left right' : Expr} {op : Infix} {s s' : Stream}
    (token : s.kind = op.token)
    (read : Expr.readLevel n (op.level + 1) s.advance = .ok right' s') :
    Expr.readLevelRest (n + 1) op.level left s =
      Expr.readLevelRest n op.level (.infixed op left right') s' := by
  have found : Infix.at? op.level op.token = some op := by simp [Infix.at?]
  rw [Expr.readLevelRest, kind_bind, token, found]
  simp only [next_bind]
  rw [bind_of_ok read]

theorem Ladder.infixed {left right : Expr} (span : Span) (op : Infix) (hl : Ladder left)
    (hr : Ladder right) (levelLeft : op.level + 1 ≤ left.level)
    (levelRight : op.level + 1 < right.level) (closed : left.endsInAssignment = false) :
    Ladder (op.apply span left right) := by
  have canonical : Canonical (op.apply span left right) :=
    .infixed op hl.canonical hr.canonical levelLeft levelRight closed
  have bound : op.level < 7 := op.level_lt
  have edge_eq : ∀ k, (op.apply span left right).edge k = right.edge k := by
    intro k
    rw [edge, endsInAssignment_apply, edge]
  -- as the left operand may be an infix of the same level, the loop has to be entered with it
  -- already read, not at its first token
  have ownLoop : ∀ n s s', (op.apply span left right).Paid (op.level + 1) n →
      s.Spells (op.apply span left right).spelling s' →
      stops ((op.apply span left right).edge (op.level + 2)) s'.kind = true →
      ∃ n' e', n ≤ n' + (op.apply span left right).spelling.length ∧
        32 ≤ n' + 2 * op.level + 2 ∧
        e'.bare = (op.apply span left right).bare ∧
        Expr.readLevel n op.level s = Expr.readLevelRest n' op.level e' s' := by
    intro n s s' paid spelled follow
    rw [spelling_apply] at spelled
    rw [edge_eq] at follow
    simp only [Paid, spelling_apply, List.length_append, List.length_cons] at paid ⊢
    obtain ⟨s₁, first, second⟩ := spelled.split
    have operator : s₁.kind = op.token := second.kind_eq
    have between : stops (left.edge (op.level + 2)) s₁.kind = true := by
      rw [edge, closed, operator]
      exact stops_infix op (Nat.lt_succ_self _)
    -- the loop arrives behind the left operand, by the hypothesis about it
    obtain ⟨n₁, left', enough, sameLeft, arrives⟩ :=
      hl.loop op.level n s s₁ bound levelLeft (by unfold Paid; omega) first between
    have positive := hr.canonical.length_pos
    obtain ⟨n₁, rfl⟩ : ∃ m, n₁ = m + 1 := ⟨n₁ - 1, by omega⟩
    have operand := Taken.readLevel (n := n₁) (k := op.level + 1) (by omega) positive
      (fun n paid => hr.taken (op.level + 2) n levelRight paid) (by omega)
    obtain ⟨right', read, sameRight⟩ := operand s₁.advance s' second.tail follow
    refine ⟨n₁, .infixed op left' right', by omega, by omega, ?_, ?_⟩
    · rw [infixed_eq_apply, bare_apply, bare_apply, sameLeft, sameRight]
    · rw [arrives, readLevelRest_infix operator read]
  have own : ∀ n, (op.apply span left right).Paid (op.apply span left right).level n →
      Taken (readFrom (op.apply span left right).level n) (op.apply span left right)
        (op.apply span left right).level := by
    rw [level_apply]
    intro n paid s s' spelled follow
    obtain ⟨n', e', enough, more, same, arrives⟩ :=
      ownLoop n s s' paid spelled (stops_mono follow (edge_mono _ (Nat.le_succ _)))
    refine ⟨e', ?_, same⟩
    obtain ⟨n', rfl⟩ : ∃ m, n' = m + 1 := ⟨n' - 1, by omega⟩
    rw [readFrom_level bound, arrives]
    exact readLevelRest_of_stops (stops_mono follow (edge_le _ _))
  refine ⟨canonical, canonical.taken own, ?_, by simp⟩
  intro k n s s' hk level paid spelled follow
  rw [level_apply] at level
  -- below its own level the expression is an operand like any other
  rcases Nat.lt_or_eq_of_le level with above | same
  · exact canonical.loop_above (canonical.taken own) hk (by rw [level_apply]; omega) paid spelled
      follow
  · obtain rfl : k = op.level := by omega
    obtain ⟨n', e', enough, -, same, arrives⟩ := ownLoop n s s' paid spelled follow
    exact ⟨n', e', enough, same, arrives⟩

theorem Ladder.ternary {condition yes no : Expr} (span : Span) (hc : Ladder condition)
    (hy : Ladder yes) (hn : Ladder no) (above : 0 < condition.level)
    (closed : condition.endsInAssignment = false) :
    Ladder (.ternary span condition yes no) := by
  refine (Canonical.ternary hc.canonical hy.canonical hn.canonical above closed).ladder_of_own
    (.inl rfl) rfl fun n paid => ?_
  intro s s' spelled follow
  simp only [Paid, spelling, level, List.length_append, List.length_cons] at paid
  obtain ⟨n, rfl⟩ : ∃ m, n = m + 1 := ⟨n - 1, by omega⟩
  rw [spelling] at spelled
  obtain ⟨s₂, front, back⟩ := spelled.split
  obtain ⟨s₁, first, second⟩ := front.split
  have question : s₁.kind = .question := second.kind_eq
  have colon : s₂.kind = .colon := back.kind_eq
  have between : stops (condition.edge 1) s₁.kind = true := by
    rw [edge, closed, question]
    rfl
  obtain ⟨condition', readCondition, sameCondition⟩ :=
    hc.taken 1 n above (by unfold Paid; omega) s s₁ first between
  rw [readFrom_level (by decide)] at readCondition
  -- the middle part stands between two signs, as if in parentheses
  obtain ⟨yes', readYes, sameYes⟩ := hy.read (n := n) (by omega) second.tail (by rw [colon]; rfl)
  obtain ⟨no', readNo, sameNo⟩ := hn.taken 0 n (Nat.zero_le _) (by unfold Paid; omega) _ s'
    back.tail follow
  refine ⟨.ternary (condition'.span.merge no'.span) condition' yes' no', ?_,
    by simp only [bare, sameCondition, sameYes, sameNo]⟩
  change Expr.read n _ = _ at readNo
  show Expr.read (n + 1) s = _
  unfold Expr.read
  rw [bind_of_ok readCondition, bind_of_ok (Reading.eat_of_kind question)]
  simp only [↓reduceIte]
  rw [bind_of_ok readYes, bind_of_ok (Reading.expect_of_kind colon), bind_of_ok readNo]
  rfl

/-! ### Chains -/

/-- A chain ends at a token that continues none. -/
theorem readChain_of_stops {k : Nat} {target : Expr} {s : Stream} (h : stops k s.kind = true) :
    Expr.readChain (n + 1) target s = .ok target s := by
  have ends : continuesChain s.kind = false := by
    simp only [stops, Bool.and_eq_true] at h
    simpa using h.1.1.1
  rw [Expr.readChain, kind_bind]
  cases kind : s.kind <;> first | rfl | (rw [kind] at ends; cases ends)

/-- A chain is read back if the loop of chains arrives behind it. -/
theorem Canonical.ladder_of_chain (h : e.Canonical) (level : e.level = 11)
    (chain : ∀ n s s', e.Paid 11 n → s.Spells e.spelling s' →
      ∃ n' e', n ≤ n' + e.spelling.length ∧ e'.bare = e.bare ∧
        Expr.readPrimary n s = Expr.readChain n' e' s') : Ladder e := by
  have own : ∀ n, e.Paid e.level n → Taken (readFrom e.level n) e e.level := by
    rw [level]
    intro n paid s s' spelled follow
    have positive := h.length_pos
    obtain ⟨n', e', enough, same, arrives⟩ := chain n s s' paid spelled
    unfold Paid at paid
    obtain ⟨n', rfl⟩ : ∃ m, n' = m + 1 := ⟨n' - 1, by omega⟩
    refine ⟨e', ?_, same⟩
    show Expr.readPrimary n s = _
    rw [arrives]
    exact readChain_of_stops follow
  exact
    { canonical := h
      taken := h.taken own
      loop := fun k n s s' hk _ paid spelled follow =>
        h.loop_above (h.taken own) hk (by omega) paid spelled follow
      chain := fun n s s' _ => chain n s s' }

theorem ladder_ident (name : Name) : Ladder (.ident name) := by
  refine (Canonical.ident name).ladder_of_chain rfl fun n s s' paid spelled => ?_
  simp only [Paid, spelling, List.length_singleton] at paid
  obtain ⟨n, rfl⟩ : ∃ m, n = m + 1 := ⟨n - 1, by omega⟩
  refine ⟨n, .ident s.here.name, Nat.le_refl _, ?_, ?_⟩
  · have writes := spelled.head
    simp only [bare, Name.bare, Token.name, writes.2]
  · rw [Expr.readPrimary, here_bind]
    simp only [show s.here.kind = .identifier from spelled.kind_eq]
    rw [next_bind, spelled.tail.eq_of_nil]

/-- A link of a chain: behind the target stands a first token, and from there the loop of chains
goes on to arrive behind the link. -/
theorem Ladder.link {target : Expr} {link : List Symbol} (ht : Ladder target)
    (chain : target.isChain = true) (canonical : e.Canonical) (level : e.level = 11)
    (spells : e.spelling = target.spelling ++ link)
    (step : ∀ n s s' target', 32 * link.length ≤ n → s.Spells link s' →
      target'.bare = target.bare →
      ∃ n' e', n ≤ n' + link.length ∧ e'.bare = e.bare ∧
        Expr.readChain n target' s = Expr.readChain n' e' s') : Ladder e := by
  refine canonical.ladder_of_chain level fun n s s' paid spelled => ?_
  have positive := ht.canonical.length_pos
  rw [spells] at spelled ⊢
  simp only [Paid, spells, List.length_append] at paid ⊢
  obtain ⟨s₁, first, second⟩ := spelled.split
  obtain ⟨n₁, target', enough, same, arrives⟩ :=
    ht.chain n s s₁ chain (by unfold Paid; omega) first
  obtain ⟨n', e', enough', same', arrives'⟩ := step n₁ s₁ s' target' (by omega) second same
  exact ⟨n', e', by omega, same', by rw [arrives, arrives']⟩

theorem Ladder.field {target : Expr} (span : Span) (name : Name) (ht : Ladder target)
    (chain : target.isChain = true) : Ladder (.field span target name) := by
  refine ht.link chain (.field ht.canonical chain) rfl (by rw [spelling]) ?_
  intro n s s' target' paid spelled same
  simp only [List.length_cons, List.length_nil] at paid ⊢
  obtain ⟨n, rfl⟩ : ∃ m, n = m + 1 := ⟨n - 1, by omega⟩
  have named : s.advance.kind = .identifier := spelled.tail.kind_eq
  have writes := spelled.tail.head
  refine ⟨n, .field (target'.span.merge s.advance.here.span) target' s.advance.here.name,
    by omega, ?_, ?_⟩
  · simp only [bare, Name.bare, Token.name, same, writes.2]
  · rw [Expr.readChain, kind_bind]
    simp only [show s.kind = .dot from spelled.kind_eq]
    rw [next_bind, bind_of_ok (Reading.expect_of_kind named), spelled.tail.tail.eq_of_nil]

theorem Ladder.index {target position : Expr} (span : Span) (ht : Ladder target)
    (hp : Ladder position) (chain : target.isChain = true) :
    Ladder (.index span target position) := by
  refine ht.link chain (.index ht.canonical hp.canonical chain) rfl
    (by rw [spelling, List.append_assoc]) ?_
  intro n s s' target' paid spelled same
  simp only [List.cons_append, List.length_cons, List.length_append, List.length_nil] at paid ⊢
  obtain ⟨n, rfl⟩ : ∃ m, n = m + 1 := ⟨n - 1, by omega⟩
  obtain ⟨s₁, inside, close⟩ := spelled.tail.split
  have closed : s₁.kind = .rightBracket := close.kind_eq
  obtain ⟨position', read, same'⟩ := hp.read (n := n) (by omega) inside (by rw [closed]; rfl)
  refine ⟨n, .index (target'.span.merge s₁.here.span) target' position', by omega,
    by simp only [bare, same, same'], ?_⟩
  rw [Expr.readChain, kind_bind]
  simp only [show s.kind = .leftBracket from spelled.kind_eq]
  rw [next_bind, bind_of_ok read, bind_of_ok (Reading.expect_of_kind closed),
    close.tail.eq_of_nil]

/-- One argument and those after it, up to the closing parenthesis. -/
theorem readArgumentsRest_spelled {first : Expr} {args : List Expr} (hf : Ladder first)
    (h : ∀ e ∈ args, Ladder e) :
    ∀ n s s',
      s.Spells (first.spelling ++ (afterCommas (spellings args) ++ [.fixed .rightParen])) s' →
      32 * (first.spelling.length + (afterCommas (spellings args)).length) < n →
      ∃ read close, Expr.readArgumentsRest n s = .ok (read, close) s' ∧
        bareAll read = bareAll (first :: args) := by
  induction args generalizing first with
  | nil =>
    intro n s s' spelled paid
    obtain ⟨n, rfl⟩ : ∃ m, n = m + 1 := ⟨n - 1, by omega⟩
    obtain ⟨s₁, inside, close⟩ := spelled.split
    have closed : s₁.kind = .rightParen := close.kind_eq
    have noComma : s₁.kind ≠ .comma := by rw [closed]; decide
    obtain ⟨first', read, same⟩ := hf.read (n := n) (by omega) inside (by rw [closed]; rfl)
    refine ⟨[first'], s₁.here.span, ?_, by simp only [bareAll, same]⟩
    rw [Expr.readArgumentsRest, bind_of_ok read, bind_of_ok (Reading.eat_of_ne noComma)]
    simp only [Bool.false_eq_true, ↓reduceIte]
    rw [bind_of_ok (Reading.expect_of_kind closed), close.tail.eq_of_nil]
    rfl
  | cons second rest ih =>
    intro n s s' spelled paid
    obtain ⟨n, rfl⟩ : ∃ m, n = m + 1 := ⟨n - 1, by omega⟩
    obtain ⟨s₁, inside, others⟩ := spelled.split
    simp only [spellings, afterCommas, List.cons_append, List.length_cons, List.length_append,
      List.append_assoc] at paid others
    have comma : s₁.kind = .comma := others.kind_eq
    obtain ⟨first', read, same⟩ := hf.read (n := n) (by omega) inside (by rw [comma]; rfl)
    obtain ⟨rest', close, reads, sames⟩ := ih (h second List.mem_cons_self)
      (fun e he => h e (List.mem_cons_of_mem _ he)) n _ s' others.tail (by omega)
    refine ⟨first' :: rest', close, ?_, by rw [bareAll, same, sames]; simp only [bareAll]⟩
    rw [Expr.readArgumentsRest, bind_of_ok read, bind_of_ok (Reading.eat_of_kind comma)]
    simp only [↓reduceIte]
    rw [bind_of_ok reads]
    rfl

/-- The arguments of a call, up to the closing parenthesis. -/
theorem readArguments_spelled {args : List Expr} (h : ∀ e ∈ args, Ladder e) {s s' : Stream}
    (spelled : s.Spells (separated (spellings args) ++ [.fixed .rightParen]) s')
    (paid : 32 * (separated (spellings args)).length + 1 < n) :
    ∃ read close, Expr.readArguments n s = .ok (read, close) s' ∧ bareAll read = bareAll args := by
  obtain ⟨n, rfl⟩ : ∃ m, n = m + 1 := ⟨n - 1, by omega⟩
  cases args with
  | nil =>
    have closed : s.kind = .rightParen := spelled.kind_eq
    refine ⟨[], s.here.span, ?_, rfl⟩
    rw [Expr.readArguments, kind_bind, if_pos closed, next_bind, spelled.tail.eq_of_nil]
    rfl
  | cons first rest =>
    have hf := h first List.mem_cons_self
    simp only [spellings, separated, List.length_append] at paid
    rw [spellings, separated, List.append_assoc] at spelled
    have start : s.kind ≠ .rightParen := by
      obtain ⟨s₁, inside, -⟩ := spelled.split
      have start := hf.canonical.starts_kind inside
      rintro closed
      rw [closed] at start
      cases start
    obtain ⟨read, close, reads, same⟩ := readArgumentsRest_spelled hf
      (fun e he => h e (List.mem_cons_of_mem _ he)) n s s' spelled (by omega)
    refine ⟨read, close, ?_, same⟩
    rw [Expr.readArguments, kind_bind, if_neg start]
    exact reads

theorem Ladder.call {callee : Expr} {args : List Expr} (span : Span) (hc : Ladder callee)
    (chain : callee.isChain = true) (h : ∀ e ∈ args, Ladder e) :
    Ladder (.call span callee args) := by
  refine hc.link chain (.call hc.canonical chain fun e he => (h e he).canonical) rfl
    (by rw [spelling, List.append_assoc]) ?_
  intro n s s' callee' paid spelled same
  simp only [List.cons_append, List.length_cons, List.length_append, List.length_nil] at paid ⊢
  obtain ⟨n, rfl⟩ : ∃ m, n = m + 1 := ⟨n - 1, by omega⟩
  obtain ⟨read, close, reads, same'⟩ := readArguments_spelled (n := n) h spelled.tail (by omega)
  refine ⟨n, .call (callee'.span.merge close) callee' read, by omega,
    by simp only [bare, same, same'], ?_⟩
  rw [Expr.readChain, kind_bind]
  simp only [show s.kind = .leftParen from spelled.kind_eq]
  rw [next_bind, bind_of_ok reads]

theorem Ladder.assign {target value : Expr} (span : Span) (ht : Ladder target)
    (hv : Ladder value) (chain : target.isChain = true) :
    Ladder (.assign span target value) := by
  refine (Canonical.assign ht.canonical hv.canonical chain).ladder_of_own (.inr (by simp [level]))
    rfl fun n paid => ?_
  intro s s' spelled follow
  simp only [Paid, spelling, level, List.length_append, List.length_cons] at paid
  rw [spelling] at spelled
  obtain ⟨s₁, first, second⟩ := spelled.split
  have positive := ht.canonical.length_pos
  obtain ⟨n', target', enough, same, arrives⟩ :=
    ht.chain n s s₁ chain (by unfold Paid; omega) first
  obtain ⟨n', rfl⟩ : ∃ m, n' = m + 1 := ⟨n' - 1, by omega⟩
  obtain ⟨value', read, same'⟩ := hv.read (n := n') (by omega) second.tail follow
  refine ⟨.assigned target' value', ?_, by simp only [bare, assigned, same, same']⟩
  show Expr.readPrimary n s = _
  rw [arrives, Expr.readChain, kind_bind]
  simp only [show s₁.kind = .equal from second.kind_eq]
  rw [next_bind, bind_of_ok read]
  rfl

/-- Every canonical expression is read back. -/
theorem Canonical.ladder {e : Expr} (h : e.Canonical) : Ladder e := by
  induction h with
  | literal span value => exact ladder_literal span value
  | ident name => exact ladder_ident name
  | group _ inner => exact .group _ inner
  | array _ elements => exact .array _ elements
  | unary _ above operand => exact .unary _ _ operand above
  | stepThenTake _ above operand => exact .stepThenTake _ _ operand above
  | takeThenStep _ above closed operand => exact .takeThenStep _ _ operand above closed
  | infixed op _ _ levelLeft levelRight closed left right =>
    exact .infixed _ op left right levelLeft levelRight closed
  | ternary _ _ _ above closed condition yes no =>
    exact .ternary _ condition yes no above closed
  | assign _ _ chain target value => exact .assign _ target value chain
  | index _ _ chain target position => exact .index _ target position chain
  | field _ chain target => exact .field _ _ target chain
  | call _ chain _ callee args => exact .call _ callee chain args

end Expr
end Scriptlet
