import Scriptlet.Proofs.Reader.Ladder

/-!
# The grammar

`Derives` and `Forms` are the grammar as relations: from which position to which position the
tokens of a stream form an expression or a statement, and which tree they form. The relations say
nothing about how the tree is found. Whatever the reader gives back without recording a problem is
derived (`Expr.derives_of_read`, `forms_of_ofStream`), so every fact about trees that were read
is a fact about derivations.
-/

namespace Scriptlet

/-! ## Expressions -/

/-- The constant that a keyword writes. -/
def TokenKind.constant? : TokenKind → Option Constant
  | kwTrue => some (.bool true)
  | kwFalse => some (.bool false)
  | kwNull => some .null
  | _ => none

/-- What operators are written by is no token of another kind, such as the end of the tokens. -/
theorem ofToken_ne {α : Type} {f : TokenKind → Option α} {kind other : TokenKind} {a : α}
    (none : f other = none) (h : f kind = some a) : kind ≠ other := by
  rintro rfl
  rw [none] at h
  cases h

/-- What tokens inside an expression form. -/
inductive Phrase where
  /-- An expression that stands at a level of the ladder. Level 11 holds the primaries and
  level 12, above the ladder, the chains. -/
  | expr (level : Nat) (e : Expr)
  /-- Elements of an array, and where their closing bracket stands. -/
  | elements (elements : List Expr) (close : Span)
  /-- Arguments of a call, and where their closing parenthesis stands. -/
  | arguments (args : List Expr) (close : Span)
  /-- The same, with one argument at least. -/
  | someArguments (args : List Expr) (close : Span)

/-- The tokens from `s` up to `s'` form a phrase. -/
inductive Derives : Stream → Phrase → Stream → Prop
  | literal {s value} : s.kind = .numberLiteral ∨ s.kind = .textLiteral →
      s.here.literal = some value →
      Derives s (.expr 11 (.literal s.here.span value.constant)) s.advance
  | keyword {s value} : s.kind.constant? = some value →
      Derives s (.expr 11 (.literal s.here.span value)) s.advance
  | array {s elements close s'} : s.kind = .leftBracket →
      Derives s.advance (.elements elements close) s' →
      Derives s (.expr 11 (.array (s.here.span.merge close) elements)) s'
  | group {s inner s₁} : s.kind = .leftParen → Derives s.advance (.expr 0 inner) s₁ →
      s₁.kind = .rightParen →
      Derives s (.expr 11 (.group (s.here.span.merge s₁.here.span) inner)) s₁.advance
  | name {s} : s.kind = .identifier → Derives s (.expr 12 (.ident s.here.name)) s.advance
  | field {s target s₁} : Derives s (.expr 12 target) s₁ → s₁.kind = .dot →
      s₁.advance.kind = .identifier →
      Derives s (.expr 12 (.field (target.span.merge s₁.advance.here.span) target
        s₁.advance.here.name)) s₁.advance.advance
  | index {s target s₁ position s₂} : Derives s (.expr 12 target) s₁ → s₁.kind = .leftBracket →
      Derives s₁.advance (.expr 0 position) s₂ → s₂.kind = .rightBracket →
      Derives s (.expr 12 (.index (target.span.merge s₂.here.span) target position)) s₂.advance
  | call {s callee s₁ args close s'} : Derives s (.expr 12 callee) s₁ → s₁.kind = .leftParen →
      Derives s₁.advance (.arguments args close) s' →
      Derives s (.expr 12 (.call (callee.span.merge close) callee args)) s'
  | assign {s target s₁ value s'} : Derives s (.expr 12 target) s₁ → s₁.kind = .equal →
      Derives s₁.advance (.expr 0 value) s' →
      Derives s (.expr 11 (.assigned target value)) s'
  | compound {s target s₁ op value s'} : Derives s (.expr 12 target) s₁ →
      BinaryOp.ofCompound? s₁.kind = some op → Derives s₁.advance (.expr 0 value) s' →
      Derives s (.expr 11 (.assigned target
        (.binary (target.span.merge value.span) op target value))) s'
  | stepAfter {s operand s₁ op} : Derives s (.expr 11 operand) s₁ →
      StepOp.ofToken? s₁.kind = some op →
      Derives s (.expr 10 (.takeThenStep (operand.span.merge s₁.here.span) op operand)) s₁.advance
  | stepBefore {s op operand s'} : StepOp.ofToken? s.kind = some op →
      Derives s.advance (.expr 10 operand) s' →
      Derives s (.expr 9 (.stepThenTake (s.here.span.merge operand.span) op operand)) s'
  | sign {s op operand s'} : UnaryOp.ofToken? s.kind = some op →
      Derives s.advance (.expr 8 operand) s' →
      Derives s (.expr 8 (.unary (s.here.span.merge operand.span) op operand)) s'
  | infixed {s left s₁ op right s'} : Derives s (.expr (op.level + 1) left) s₁ →
      Infix.ofToken? s₁.kind = some op → Derives s₁.advance (.expr (op.level + 2) right) s' →
      Derives s (.expr (op.level + 1) (.infixed op left right)) s'
  | choice {s condition s₁ yes s₂ no s'} : Derives s (.expr 1 condition) s₁ →
      s₁.kind = .question → Derives s₁.advance (.expr 0 yes) s₂ → s₂.kind = .colon →
      Derives s₂.advance (.expr 0 no) s' →
      Derives s (.expr 0 (.ternary (condition.span.merge no.span) condition yes no)) s'
  | above {s level e s'} : Derives s (.expr (level + 1) e) s' → Derives s (.expr level e) s'
  | noElement {s} : s.kind = .rightBracket → Derives s (.elements [] s.here.span) s.advance
  | element {s e s₁ rest close s'} : Derives s (.expr 0 e) s₁ →
      Derives s₁ (.elements rest close) s' → Derives s (.elements (e :: rest) close) s'
  | elementComma {s e s₁ rest close s'} : Derives s (.expr 0 e) s₁ → s₁.kind = .comma →
      Derives s₁.advance (.elements rest close) s' → Derives s (.elements (e :: rest) close) s'
  | noArgument {s} : s.kind = .rightParen → Derives s (.arguments [] s.here.span) s.advance
  | arguments {s args close s'} : Derives s (.someArguments args close) s' →
      Derives s (.arguments args close) s'
  | lastArgument {s e s₁} : Derives s (.expr 0 e) s₁ → s₁.kind = .rightParen →
      Derives s (.someArguments [e] s₁.here.span) s₁.advance
  | argument {s e s₁ rest close s'} : Derives s (.expr 0 e) s₁ → s₁.kind = .comma →
      Derives s₁.advance (.someArguments rest close) s' →
      Derives s (.someArguments (e :: rest) close) s'

/-! ### Steps that succeeded -/

namespace Reading

variable {α β : Type} {s s' : Stream} {b : β}

theorem expect_bind_eq_ok {kind : TokenKind} {expected : Expectation} {k : Token → Reading β}
    (h : (expect kind expected >>= k) s = .ok b s') :
    s.kind = kind ∧ k s.here s.advance = .ok b s' := by
  by_cases hk : s.kind = kind
  · rw [bind_of_ok (expect_of_kind hk)] at h
    exact ⟨hk, h⟩
  · obtain ⟨t, s₁, read, -⟩ := bind_eq_ok h
    rw [expect, if_neg hk] at read
    cases read

theorem eat_bind_eq_ok {kind : TokenKind} {k : Bool → Reading β}
    (h : (eat kind >>= k) s = .ok b s') :
    (s.kind = kind ∧ k true s.advance = .ok b s') ∨ (s.kind ≠ kind ∧ k false s = .ok b s') := by
  by_cases hk : s.kind = kind
  · rw [bind_of_ok (eat_of_kind hk)] at h
    exact .inl ⟨hk, h⟩
  · rw [bind_of_ok (eat_of_ne hk)] at h
    exact .inr ⟨hk, h⟩

theorem pure_eq_ok {a c : α} (h : (pure a : Reading α) s = .ok c s') : c = a ∧ s' = s := by
  cases h
  exact ⟨rfl, rfl⟩

end Reading

namespace Expr

/-- What the productions give with a bound on the nesting is derived. The loops get what they
continue as a derivation. -/
structure Sound (n : Nat) : Prop where
  read : ∀ s e s', Expr.read n s = .ok e s' → Derives s (.expr 0 e) s'
  readLevel : ∀ k s e s', k ≤ 7 → Expr.readLevel n k s = .ok e s' → Derives s (.expr (k + 1) e) s'
  readLevelRest : ∀ k s₀ left s e s', k < 7 → Derives s₀ (.expr (k + 1) left) s →
    Expr.readLevelRest n k left s = .ok e s' → Derives s₀ (.expr (k + 1) e) s'
  readSigned : ∀ s e s', Expr.readSigned n s = .ok e s' → Derives s (.expr 8 e) s'
  readStepped : ∀ s e s', Expr.readStepped n s = .ok e s' → Derives s (.expr 9 e) s'
  readOperand : ∀ s e s', Expr.readOperand n s = .ok e s' → Derives s (.expr 10 e) s'
  readPrimary : ∀ s e s', Expr.readPrimary n s = .ok e s' → Derives s (.expr 11 e) s'
  readElements : ∀ s r s', Expr.readElements n s = .ok r s' → Derives s (.elements r.1 r.2) s'
  readChain : ∀ s₀ target s e s', Derives s₀ (.expr 12 target) s →
    Expr.readChain n target s = .ok e s' → Derives s₀ (.expr 11 e) s'
  readArguments : ∀ s r s', Expr.readArguments n s = .ok r s' → Derives s (.arguments r.1 r.2) s'
  readArgumentsRest : ∀ s r s', Expr.readArgumentsRest n s = .ok r s' →
    Derives s (.someArguments r.1 r.2) s'

theorem sound_zero : Sound 0 where
  read := by intro s e s' h; cases h
  readLevel := by intro k s e s' hk h; cases h
  readLevelRest := by intro k s₀ left s e s' hk before h; cases h
  readSigned := by intro s e s' h; cases h
  readStepped := by intro s e s' h; cases h
  readOperand := by intro s e s' h; cases h
  readPrimary := by intro s e s' h; cases h
  readElements := by intro s r s' h; cases h
  readChain := by intro s₀ target s e s' before h; cases h
  readArguments := by intro s r s' h; cases h
  readArgumentsRest := by intro s r s' h; cases h

variable {n : Nat} {s s' : Stream} {e : Expr}

theorem Sound.read_succ (sound : Sound n) (h : Expr.read (n + 1) s = .ok e s') :
    Derives s (.expr 0 e) s' := by
  rw [Expr.read] at h
  obtain ⟨condition, s₁, readCondition, h⟩ := bind_eq_ok h
  have hc := sound.readLevel 0 s condition s₁ (by decide) readCondition
  rcases Reading.eat_bind_eq_ok h with ⟨question, h⟩ | ⟨-, h⟩
  · simp only [↓reduceIte] at h
    obtain ⟨yes, s₂, readYes, h⟩ := bind_eq_ok h
    obtain ⟨colon, h⟩ := Reading.expect_bind_eq_ok h
    obtain ⟨no, s₃, readNo, h⟩ := bind_eq_ok h
    obtain ⟨rfl, rfl⟩ := Reading.pure_eq_ok h
    exact .choice hc question (sound.read _ _ _ readYes) colon (sound.read _ _ _ readNo)
  · obtain ⟨rfl, rfl⟩ := Reading.pure_eq_ok h
    exact .above hc

theorem Sound.readLevel_succ (sound : Sound n) {k : Nat} (hk : k ≤ 7)
    (h : Expr.readLevel (n + 1) k s = .ok e s') : Derives s (.expr (k + 1) e) s' := by
  rcases Nat.lt_or_eq_of_le hk with lower | rfl
  · rw [readLevel_eq_bind lower] at h
    obtain ⟨left, s₁, readLeft, h⟩ := bind_eq_ok h
    have hl := sound.readLevel (k + 1) s left s₁ (by omega) readLeft
    exact sound.readLevelRest k s left s₁ e s' lower (.above hl) h
  · rw [readLevel_top] at h
    exact sound.readSigned s e s' h

theorem Sound.readLevelRest_succ (sound : Sound n) {k : Nat} {s₀ : Stream} {left : Expr}
    (hk : k < 7) (before : Derives s₀ (.expr (k + 1) left) s)
    (h : Expr.readLevelRest (n + 1) k left s = .ok e s') : Derives s₀ (.expr (k + 1) e) s' := by
  rw [Expr.readLevelRest, kind_bind] at h
  cases found : Infix.at? k s.kind with
  | none =>
    rw [found] at h
    obtain ⟨rfl, rfl⟩ := Reading.pure_eq_ok h
    exact before
  | some op =>
    rw [found] at h
    simp only [next_bind] at h
    obtain ⟨right, s₁, readRight, h⟩ := bind_eq_ok h
    simp only [Infix.at?, Option.filter_eq_some_iff, beq_iff_eq] at found
    obtain ⟨token, rfl⟩ := found
    have hr := sound.readLevel (op.level + 1) s.advance right s₁ (by omega) readRight
    exact sound.readLevelRest op.level s₀ _ s₁ e s' hk (.infixed before token hr) h

theorem Sound.readSigned_succ (sound : Sound n) (h : Expr.readSigned (n + 1) s = .ok e s') :
    Derives s (.expr 8 e) s' := by
  rw [Expr.readSigned, kind_bind] at h
  cases found : UnaryOp.ofToken? s.kind with
  | none =>
    rw [found] at h
    exact .above (sound.readStepped s e s' h)
  | some op =>
    rw [found] at h
    simp only [next_bind] at h
    obtain ⟨operand, s₁, read, h⟩ := bind_eq_ok h
    obtain ⟨rfl, rfl⟩ := Reading.pure_eq_ok h
    exact .sign found (sound.readSigned _ _ _ read)

theorem Sound.readStepped_succ (sound : Sound n) (h : Expr.readStepped (n + 1) s = .ok e s') :
    Derives s (.expr 9 e) s' := by
  rw [Expr.readStepped, kind_bind] at h
  cases found : StepOp.ofToken? s.kind with
  | none =>
    rw [found] at h
    exact .above (sound.readOperand s e s' h)
  | some op =>
    rw [found] at h
    simp only [next_bind] at h
    obtain ⟨operand, s₁, read, h⟩ := bind_eq_ok h
    obtain ⟨rfl, rfl⟩ := Reading.pure_eq_ok h
    exact .stepBefore found (sound.readOperand _ _ _ read)

theorem Sound.readOperand_succ (sound : Sound n) (h : Expr.readOperand (n + 1) s = .ok e s') :
    Derives s (.expr 10 e) s' := by
  rw [Expr.readOperand] at h
  obtain ⟨operand, s₁, read, h⟩ := bind_eq_ok h
  have ho := sound.readPrimary s operand s₁ read
  rw [kind_bind] at h
  cases found : StepOp.ofToken? s₁.kind with
  | none =>
    rw [found] at h
    obtain ⟨rfl, rfl⟩ := Reading.pure_eq_ok h
    exact .above ho
  | some op =>
    rw [found] at h
    simp only [next_bind] at h
    obtain ⟨rfl, rfl⟩ := Reading.pure_eq_ok h
    exact .stepAfter ho found

/-- A literal token with its value. -/
theorem derives_literal (kind : s.kind = .numberLiteral ∨ s.kind = .textLiteral)
    (h : (match s.here.literal with
      | some value => do
        let _ ← Reading.next
        return Expr.literal s.here.span value.constant
      | none => Reading.fail .literalValue : Reading Expr) s = .ok e s') :
    Derives s (.expr 11 e) s' := by
  cases found : s.here.literal with
  | none =>
    rw [found] at h
    cases h
  | some value =>
    rw [found] at h
    simp only [next_bind] at h
    obtain ⟨rfl, rfl⟩ := Reading.pure_eq_ok h
    exact .literal kind found

theorem Sound.readPrimary_succ (sound : Sound n) (h : Expr.readPrimary (n + 1) s = .ok e s') :
    Derives s (.expr 11 e) s' := by
  rw [Expr.readPrimary, here_bind] at h
  cases kind : s.here.kind
  case numberLiteral =>
    simp only [kind] at h
    exact derives_literal (.inl kind) h
  case textLiteral =>
    simp only [kind] at h
    exact derives_literal (.inr kind) h
  case kwTrue =>
    simp only [kind, next_bind] at h
    obtain ⟨rfl, rfl⟩ := Reading.pure_eq_ok h
    exact .keyword (by rw [Stream.kind, kind]; rfl)
  case kwFalse =>
    simp only [kind, next_bind] at h
    obtain ⟨rfl, rfl⟩ := Reading.pure_eq_ok h
    exact .keyword (by rw [Stream.kind, kind]; rfl)
  case kwNull =>
    simp only [kind, next_bind] at h
    obtain ⟨rfl, rfl⟩ := Reading.pure_eq_ok h
    exact .keyword (by rw [Stream.kind, kind]; rfl)
  case leftBracket =>
    simp only [kind, next_bind] at h
    obtain ⟨⟨elements, close⟩, s₁, read, h⟩ := bind_eq_ok h
    obtain ⟨rfl, rfl⟩ := Reading.pure_eq_ok h
    exact .array kind (sound.readElements _ _ _ read)
  case leftParen =>
    simp only [kind, next_bind] at h
    obtain ⟨inner, s₁, read, h⟩ := bind_eq_ok h
    obtain ⟨closed, h⟩ := Reading.expect_bind_eq_ok h
    obtain ⟨rfl, rfl⟩ := Reading.pure_eq_ok h
    exact .group kind (sound.read _ _ _ read) closed
  case identifier =>
    simp only [kind, next_bind] at h
    exact sound.readChain s _ _ e s' (.name kind) h
  all_goals
    simp only [kind] at h
    cases h

theorem Sound.readElements_succ (sound : Sound n) {r : List Expr × Span}
    (h : Expr.readElements (n + 1) s = .ok r s') : Derives s (.elements r.1 r.2) s' := by
  by_cases closed : s.kind = .rightBracket
  · rw [Expr.readElements, kind_bind, closed] at h
    simp only [next_bind] at h
    obtain ⟨rfl, rfl⟩ := Reading.pure_eq_ok h
    exact .noElement closed
  by_cases eof : s.kind = .eof
  · rw [Expr.readElements, kind_bind, eof] at h
    cases h
  -- at any other token an element starts
  have h : (do
      let element ← Expr.read n
      let _ ← Reading.eat .comma
      let rest ← Expr.readElements n
      return (element :: rest.1, rest.2) : Reading (List Expr × Span)) s = .ok r s' := by
    rw [← h, Expr.readElements, kind_bind]
    cases kind : s.kind <;> first | rfl | exact absurd kind closed | exact absurd kind eof
  obtain ⟨e, s₁, read, h⟩ := bind_eq_ok h
  have he := sound.read s e s₁ read
  rcases Reading.eat_bind_eq_ok h with ⟨comma, h⟩ | ⟨-, h⟩
  · obtain ⟨⟨rest, close⟩, s₂, reads, h⟩ := bind_eq_ok h
    obtain ⟨rfl, rfl⟩ := Reading.pure_eq_ok h
    exact .elementComma he comma (sound.readElements _ _ _ reads)
  · obtain ⟨⟨rest, close⟩, s₂, reads, h⟩ := bind_eq_ok h
    obtain ⟨rfl, rfl⟩ := Reading.pure_eq_ok h
    exact .element he (sound.readElements _ _ _ reads)

theorem Sound.readChain_succ (sound : Sound n) {s₀ : Stream} {target : Expr}
    (before : Derives s₀ (.expr 12 target) s)
    (h : Expr.readChain (n + 1) target s = .ok e s') : Derives s₀ (.expr 11 e) s' := by
  rw [Expr.readChain, kind_bind] at h
  by_cases equal : s.kind = .equal
  · simp only [equal, next_bind] at h
    obtain ⟨value, s₁, read, h⟩ := bind_eq_ok h
    obtain ⟨rfl, rfl⟩ := Reading.pure_eq_ok h
    exact .assign before equal (sound.read _ _ _ read)
  by_cases dot : s.kind = .dot
  · simp only [dot, next_bind] at h
    obtain ⟨named, h⟩ := Reading.expect_bind_eq_ok h
    exact sound.readChain s₀ _ _ e s' (.field before dot named) h
  by_cases bracket : s.kind = .leftBracket
  · simp only [bracket, next_bind] at h
    obtain ⟨position, s₁, read, h⟩ := bind_eq_ok h
    obtain ⟨closed, h⟩ := Reading.expect_bind_eq_ok h
    exact sound.readChain s₀ _ _ e s' (.index before bracket (sound.read _ _ _ read) closed) h
  by_cases paren : s.kind = .leftParen
  · simp only [paren, next_bind] at h
    obtain ⟨⟨args, close⟩, s₁, read, h⟩ := bind_eq_ok h
    exact sound.readChain s₀ _ _ e s' (.call before paren (sound.readArguments _ _ _ read)) h
  -- what is left are compound assignments and the end of the chain
  cases compound : BinaryOp.ofCompound? s.kind with
  | some op =>
    have h : (do
        let _ ← Reading.next
        let value ← Expr.read n
        let combined := .binary (target.span.merge value.span) op target value
        return .assigned target combined : Reading Expr) s = .ok e s' := by
      rw [← h]
      cases kind : s.kind <;> rw [kind] at compound <;> cases compound <;> rfl
    rw [next_bind] at h
    obtain ⟨value, s₁, read, h⟩ := bind_eq_ok h
    obtain ⟨rfl, rfl⟩ := Reading.pure_eq_ok h
    exact .compound before compound (sound.read _ _ _ read)
  | none =>
    have h : (pure target : Reading Expr) s = .ok e s' := by
      rw [← h]
      cases kind : s.kind <;>
        first
        | rfl
        | exact absurd kind equal
        | exact absurd kind dot
        | exact absurd kind bracket
        | exact absurd kind paren
        | (rw [kind] at compound; cases compound)
    obtain ⟨rfl, rfl⟩ := Reading.pure_eq_ok h
    exact .above before

theorem Sound.readArguments_succ (sound : Sound n) {r : List Expr × Span}
    (h : Expr.readArguments (n + 1) s = .ok r s') : Derives s (.arguments r.1 r.2) s' := by
  rw [Expr.readArguments, kind_bind] at h
  by_cases closed : s.kind = .rightParen
  · rw [if_pos closed, next_bind] at h
    obtain ⟨rfl, rfl⟩ := Reading.pure_eq_ok h
    exact .noArgument closed
  · rw [if_neg closed] at h
    exact .arguments (sound.readArgumentsRest s r s' h)

theorem Sound.readArgumentsRest_succ (sound : Sound n) {r : List Expr × Span}
    (h : Expr.readArgumentsRest (n + 1) s = .ok r s') : Derives s (.someArguments r.1 r.2) s' := by
  rw [Expr.readArgumentsRest] at h
  obtain ⟨e, s₁, read, h⟩ := bind_eq_ok h
  have he := sound.read s e s₁ read
  rcases Reading.eat_bind_eq_ok h with ⟨comma, h⟩ | ⟨-, h⟩
  · simp only [↓reduceIte] at h
    obtain ⟨⟨rest, close⟩, s₂, reads, h⟩ := bind_eq_ok h
    obtain ⟨rfl, rfl⟩ := Reading.pure_eq_ok h
    exact .argument he comma (sound.readArgumentsRest _ _ _ reads)
  · simp only [Bool.false_eq_true, ↓reduceIte] at h
    obtain ⟨closed, h⟩ := Reading.expect_bind_eq_ok h
    obtain ⟨rfl, rfl⟩ := Reading.pure_eq_ok h
    exact .lastArgument he closed

theorem sound : ∀ n, Sound n
  | 0 => sound_zero
  | n + 1 =>
    have ih := sound n
    { read := fun _ _ _ => ih.read_succ
      readLevel := fun _ _ _ _ => ih.readLevel_succ
      readLevelRest := fun _ _ _ _ _ _ => ih.readLevelRest_succ
      readSigned := fun _ _ _ => ih.readSigned_succ
      readStepped := fun _ _ _ => ih.readStepped_succ
      readOperand := fun _ _ _ => ih.readOperand_succ
      readPrimary := fun _ _ _ => ih.readPrimary_succ
      readElements := fun _ _ _ => ih.readElements_succ
      readChain := fun _ _ _ _ _ => ih.readChain_succ
      readArguments := fun _ _ _ => ih.readArguments_succ
      readArgumentsRest := fun _ _ _ => ih.readArgumentsRest_succ }

/-- Every expression that is read is derived. -/
theorem derives_of_read (h : Expr.read n s = .ok e s') : Derives s (.expr 0 e) s' :=
  (sound n).read s e s' h

end Expr

/-! ## Statements -/

/-- The end of a statement: a semicolon, which an interactive line may leave out. -/
inductive Terminated (mode : Mode) : Stream → Stream → Prop
  | written {s} : s.kind = .semicolon → Terminated mode s s.advance
  | omitted {s} : mode = .interactive → s.kind ≠ .semicolon → Terminated mode s s

/-- Names between commas, one at least. -/
inductive NamesBetween : Stream → List Name → Stream → Prop
  | last {s} : s.kind = .identifier → s.advance.kind ≠ .comma →
      NamesBetween s [s.here.name] s.advance
  | more {s rest s'} : s.kind = .identifier → s.advance.kind = .comma →
      NamesBetween s.advance.advance rest s' → NamesBetween s (s.here.name :: rest) s'

/-- Parameters with their parentheses. -/
inductive Parameters : Stream → List Name → Stream → Prop
  | none {s} : s.kind = .leftParen → s.advance.kind = .rightParen →
      Parameters s [] s.advance.advance
  | some {s params s₁} : s.kind = .leftParen → NamesBetween s.advance params s₁ →
      s₁.kind = .rightParen → Parameters s params s₁.advance

/-- What tokens outside expressions form. -/
inductive Clause where
  | stmt (st : Stmt)
  /-- A statement where no declaration is allowed. -/
  | plain (st : Stmt)
  /-- The statements of a block with its closing brace. -/
  | block (body : List Stmt)
  /-- Parameters and body of a function. -/
  | function (name : Name) (isMethod : Bool) (decl : FunctionDecl Stmt)
  /-- A class from its name on. -/
  | classDecl (decl : ClassDecl Stmt)
  /-- The members of a class with its closing brace. -/
  | members (members : List Member)
  /-- Statements up to the end of the tokens. -/
  | program (p : List Stmt)

/-- The tokens from `s` up to `s'` form a clause. -/
inductive Forms (mode : Mode) : Stream → Clause → Stream → Prop
  | variableOnly {s s'} : s.kind = .kwVar → s.advance.kind = .identifier →
      s.advance.advance.kind ≠ .equal → Terminated mode s.advance.advance s' →
      Forms mode s (.stmt (.declare s.advance.here.name none false)) s'
  | variableSet {s constant value s₁ s'} : s.kind = (if constant then .kwConst else .kwVar) →
      s.advance.kind = .identifier → s.advance.advance.kind = .equal →
      Derives s.advance.advance.advance (.expr 0 value) s₁ → Terminated mode s₁ s' →
      Forms mode s (.stmt (.declare s.advance.here.name (some value) constant)) s'
  | function {s decl s'} : s.kind = .kwFunction → s.advance.kind = .identifier →
      Forms mode s.advance.advance (.function s.advance.here.name false decl) s' →
      Forms mode s (.stmt (.function decl)) s'
  | classDecl {s decl s'} : s.kind = .kwClass → Forms mode s.advance (.classDecl decl) s' →
      Forms mode s (.stmt (.classDecl decl)) s'
  | plain {s st s'} : Forms mode s (.plain st) s' → Forms mode s (.stmt st) s'
  | block {s body s'} : s.kind = .leftBrace → Forms mode s.advance (.block body) s' →
      Forms mode s (.plain (.block body)) s'
  | branch {s condition s₁ yes s'} : s.kind = .kwIf → s.advance.kind = .leftParen →
      Derives s.advance.advance (.expr 0 condition) s₁ → s₁.kind = .rightParen →
      Forms mode s₁.advance (.plain yes) s' → s'.kind ≠ .kwElse →
      Forms mode s (.plain (.branch condition yes none)) s'
  | branchElse {s condition s₁ yes s₂ no s'} : s.kind = .kwIf → s.advance.kind = .leftParen →
      Derives s.advance.advance (.expr 0 condition) s₁ → s₁.kind = .rightParen →
      Forms mode s₁.advance (.plain yes) s₂ → s₂.kind = .kwElse →
      Forms mode s₂.advance (.plain no) s' →
      Forms mode s (.plain (.branch condition yes (some no))) s'
  | loop {s condition s₁ body s'} : s.kind = .kwWhile → s.advance.kind = .leftParen →
      Derives s.advance.advance (.expr 0 condition) s₁ → s₁.kind = .rightParen →
      Forms mode s₁.advance (.plain body) s' →
      Forms mode s (.plain (.loop condition body)) s'
  | ret {s s'} : s.kind = .kwReturn → s.advance.kind = .semicolon ∨ s.advance.kind = .eof →
      s.advance.kind = .eof ∧ s' = s.advance ∨ Terminated mode s.advance s' →
      Forms mode s (.plain (.ret s.here.span none)) s'
  | retValue {s e s₁ s'} : s.kind = .kwReturn → Derives s.advance (.expr 0 e) s₁ →
      s₁.kind = .eof ∧ s' = s₁ ∨ Terminated mode s₁ s' →
      Forms mode s (.plain (.ret (s.here.span.merge e.span) (some e))) s'
  | expr {s e s₁ s'} : Derives s (.expr 0 e) s₁ → Terminated mode s₁ s' →
      Forms mode s (.plain (.expr e)) s'
  | blockEnd {s} : s.kind = .rightBrace → Forms mode s (.block []) s.advance
  | blockStmt {s st s₁ rest s'} : Forms mode s (.stmt st) s₁ → Forms mode s₁ (.block rest) s' →
      Forms mode s (.block (st :: rest)) s'
  | functionBody {s name isMethod params s₁ body s'} : Parameters s params s₁ →
      s₁.kind = .leftBrace → Forms mode s₁.advance (.block body) s' →
      Forms mode s (.function name isMethod ⟨name, params, body, isMethod⟩) s'
  | baseClass {s members s'} : s.kind = .identifier → s.advance.kind = .leftBrace →
      Forms mode s.advance.advance (.members members) s' →
      Forms mode s (.classDecl (.ofMembers s.here.name none members)) s'
  | subclass {s members s'} : s.kind = .identifier → s.advance.kind = .colon →
      s.advance.advance.kind = .identifier → s.advance.advance.advance.kind = .leftBrace →
      Forms mode s.advance.advance.advance.advance (.members members) s' →
      Forms mode s (.classDecl
        (.ofMembers s.here.name (some s.advance.advance.here.name) members)) s'
  | membersEnd {s} : s.kind = .rightBrace → Forms mode s (.members []) s.advance
  | field {s value s₁ s₂ rest s'} : s.kind = .identifier → s.advance.kind = .equal →
      Derives s.advance.advance (.expr 0 value) s₁ → Terminated mode s₁ s₂ →
      Forms mode s₂ (.members rest) s' →
      Forms mode s (.members (.field ⟨s.here.name, value⟩ :: rest)) s'
  | method {s decl s₁ rest s'} : s.kind = .identifier →
      Forms mode s.advance (.function s.here.name true decl) s₁ →
      Forms mode s₁ (.members rest) s' →
      Forms mode s (.members (.method decl :: rest)) s'
  | programEnd {s} : s.kind = .eof → Forms mode s (.program []) s
  | programStmt {s st s₁ rest s'} : Forms mode s (.stmt st) s₁ →
      Forms mode s₁ (.program rest) s' → Forms mode s (.program (st :: rest)) s'

/-! ### Pages -/

namespace PageReading

variable {α β : Type}

/-- Reading never takes back a problem, and what it gives without recording one satisfies `P`. -/
def Gives (r : PageReading α) (P : Stream → α → Stream → Prop) : Prop :=
  ∀ page, match r page with
    | .ok a page' => page.errors.length ≤ page'.errors.length ∧
        (page'.errors.length = page.errors.length → P page.stream a page'.stream)
    | .error _ page' => page.errors.length ≤ page'.errors.length

variable {r : PageReading α} {P P' : Stream → α → Stream → Prop}

theorem Gives.mono (h : r.Gives P) (imp : ∀ s a s', P s a s' → P' s a s') : r.Gives P' := by
  intro page
  have h := h page
  cases hr : r page with
  | ok a page' =>
    rw [hr] at h
    exact ⟨h.1, fun same => imp _ _ _ (h.2 same)⟩
  | error e page' =>
    rw [hr] at h
    exact h

theorem Gives.bind {f : α → PageReading β} {Q : α → Stream → β → Stream → Prop} (h : r.Gives P)
    (hf : ∀ a, (f a).Gives (Q a)) :
    (r >>= f).Gives fun s b s' => ∃ a s₁, P s a s₁ ∧ Q a s₁ b s' := by
  intro page
  have h := h page
  cases hr : r page with
  | error e page' =>
    rw [hr] at h
    rw [bind_of_error hr]
    exact h
  | ok a page₁ =>
    rw [hr] at h
    rw [bind_of_ok hr]
    have hf := hf a page₁
    cases hb : f a page₁ with
    | error e page' =>
      rw [hb] at hf
      exact Nat.le_trans h.1 hf
    | ok b page' =>
      rw [hb] at hf
      refine ⟨Nat.le_trans h.1 hf.1, fun same => ?_⟩
      -- no problem was recorded in total, so none in the first part
      have first : page₁.errors.length = page.errors.length := by have := h.1; have := hf.1; omega
      exact ⟨a, page₁.stream, h.2 first, hf.2 (same.trans first.symm)⟩

theorem gives_lift {r : Reading α} (h : ∀ s a s', r s = .ok a s' → P s a s') :
    (liftM r : PageReading α).Gives P := by
  intro page
  show match Reading.onPage r page with
    | .ok a page' => _
    | .error _ page' => _
  unfold Reading.onPage
  cases hr : r page.stream with
  | ok a s' => exact ⟨Nat.le_refl _, fun _ => h _ _ _ hr⟩
  | error e s' => exact Nat.le_refl _

theorem gives_self (r : Reading α) :
    (liftM r : PageReading α).Gives fun s a s' => r s = .ok a s' :=
  gives_lift fun _ _ _ h => h

theorem gives_pure (a : α) : (pure a : PageReading α).Gives fun s b s' => b = a ∧ s' = s :=
  fun _ => ⟨Nat.le_refl _, fun _ => ⟨rfl, rfl⟩⟩

theorem gives_kind : (liftM Reading.kind : PageReading TokenKind).Gives
    fun s kind s' => s.kind = kind ∧ s' = s :=
  gives_lift fun _ _ _ h => by cases h; exact ⟨rfl, rfl⟩

/-- Looking at the next token before going on. -/
theorem gives_kind_bind {f : TokenKind → PageReading β} {Q : Stream → β → Stream → Prop}
    (h : ∀ kind, (f kind).Gives fun s b s' => s.kind = kind → Q s b s') :
    (liftM Reading.kind >>= f).Gives Q := by
  refine (gives_kind.bind h).mono ?_
  rintro s b s' ⟨kind, _, ⟨here, rfl⟩, given⟩
  exact given here

theorem gives_next : (liftM Reading.next : PageReading Token).Gives
    fun s t s' => t = s.here ∧ s' = s.advance :=
  gives_lift fun _ _ _ h => by cases h; exact ⟨rfl, rfl⟩

theorem gives_fail {expected : Expectation} : (liftM (Reading.fail expected : Reading α) :
    PageReading α).Gives P :=
  gives_lift fun _ _ _ h => by cases h

theorem gives_expect {kind : TokenKind} {expected : Expectation} :
    (liftM (Reading.expect kind expected) : PageReading Token).Gives
      fun s t s' => s.kind = kind ∧ t = s.here ∧ s' = s.advance := by
  refine gives_lift fun s t s' h => ?_
  rw [← bind_pure (Reading.expect kind expected)] at h
  obtain ⟨named, h⟩ := Reading.expect_bind_eq_ok h
  obtain ⟨rfl, rfl⟩ := Reading.pure_eq_ok h
  exact ⟨named, rfl, rfl⟩

/-- Passing an expected token before going on; what follows may look back at it. -/
theorem gives_expect_bind {kind : TokenKind} {expected : Expectation} {f : Token → PageReading β}
    {Q : Stream → β → Stream → Prop}
    (h : ∀ t, (f t).Gives fun s₁ b s' => ∀ s : Stream, s.kind = kind → t = s.here →
      s₁ = s.advance → Q s b s') :
    (liftM (Reading.expect kind expected) >>= f).Gives Q := by
  refine (gives_expect.bind h).mono ?_
  rintro s b s' ⟨t, _, ⟨here, rfl, rfl⟩, given⟩
  exact given s here rfl rfl

theorem gives_eat {kind : TokenKind} : (liftM (Reading.eat kind) : PageReading Bool).Gives
    fun s eaten s' => (eaten = true ∧ s.kind = kind ∧ s' = s.advance) ∨
      (eaten = false ∧ s.kind ≠ kind ∧ s' = s) := by
  refine gives_lift fun s eaten s' h => ?_
  rw [← bind_pure (Reading.eat kind)] at h
  rcases Reading.eat_bind_eq_ok h with ⟨here, h⟩ | ⟨other, h⟩
  · obtain ⟨rfl, rfl⟩ := Reading.pure_eq_ok h
    exact .inl ⟨rfl, here, rfl⟩
  · obtain ⟨rfl, rfl⟩ := Reading.pure_eq_ok h
    exact .inr ⟨rfl, other, rfl⟩

/-- A problem that was recovered from stays recorded, so without a new one nothing was skipped. -/
theorem Gives.recovering (h : r.Gives P) (boundary : Boundary) :
    (PageReading.recovering boundary r).Gives fun s o s' => ∃ a, o = some a ∧ P s a s' := by
  intro page
  have h := h page
  unfold PageReading.recovering
  cases hr : r page with
  | ok a page' =>
    rw [hr] at h
    exact ⟨h.1, fun same => ⟨a, rfl, h.2 same⟩⟩
  | error e page' =>
    rw [hr] at h
    have longer : page.errors.length < (page'.errors ++ [e]).length := by
      rw [List.length_append, List.length_singleton]
      exact Nat.lt_succ_of_le h
    refine ⟨Nat.le_of_lt longer, fun same => ?_⟩
    exact absurd same (Nat.ne_of_gt longer)

end PageReading

/-! ### Pieces of statements -/

section
variable {mode : Mode} {n : Nat} {s s' : Stream}

theorem terminated_of_read {expected : Expectation} {u : Unit}
    (h : readTerminator mode expected s = .ok u s') : Terminated mode s s' := by
  unfold readTerminator at h
  rcases Reading.eat_bind_eq_ok h with ⟨semicolon, h⟩ | ⟨other, h⟩
  · simp only [↓reduceIte] at h
    obtain ⟨-, rfl⟩ := Reading.pure_eq_ok h
    exact .written semicolon
  · simp only [Bool.false_eq_true, ↓reduceIte] at h
    by_cases interactive : mode = .interactive
    · rw [if_pos interactive] at h
      obtain ⟨-, rfl⟩ := Reading.pure_eq_ok h
      exact .omitted interactive other
    · rw [if_neg interactive] at h
      cases h

theorem namesBetween_of_read {params : List Name} (h : readParametersRest n s = .ok params s') :
    NamesBetween s params s' := by
  induction n generalizing s params with
  | zero => cases h
  | succ n ih =>
    rw [readParametersRest] at h
    obtain ⟨named, h⟩ := Reading.expect_bind_eq_ok h
    rcases Reading.eat_bind_eq_ok h with ⟨comma, h⟩ | ⟨other, h⟩
    · simp only [↓reduceIte] at h
      obtain ⟨rest, s₁, reads, h⟩ := bind_eq_ok h
      obtain ⟨rfl, rfl⟩ := Reading.pure_eq_ok h
      exact .more named comma (ih reads)
    · simp only [Bool.false_eq_true, ↓reduceIte] at h
      obtain ⟨rfl, rfl⟩ := Reading.pure_eq_ok h
      exact .last named other

theorem parameters_of_read {params : List Name} (h : readParameters n s = .ok params s') :
    Parameters s params s' := by
  rw [readParameters] at h
  obtain ⟨opened, h⟩ := Reading.expect_bind_eq_ok h
  rw [Expr.kind_bind] at h
  by_cases closed : s.advance.kind = .rightParen
  · rw [if_pos closed, pure_bind] at h
    dsimp only at h
    obtain ⟨-, h⟩ := Reading.expect_bind_eq_ok h
    obtain ⟨rfl, rfl⟩ := Reading.pure_eq_ok h
    exact .none opened closed
  · rw [if_neg closed] at h
    obtain ⟨names, s₁, reads, h⟩ := bind_eq_ok h
    obtain ⟨closed, h⟩ := Reading.expect_bind_eq_ok h
    obtain ⟨rfl, rfl⟩ := Reading.pure_eq_ok h
    exact .some opened (namesBetween_of_read reads) closed

/-- A value that was read is there. -/
theorem some_of_read {value : Option Expr}
    (h : (some <$> Expr.read n : Reading (Option Expr)) s = .ok value s') :
    ∃ e, value = some e ∧ Derives s (.expr 0 e) s' := by
  rw [map_eq_pure_bind] at h
  obtain ⟨e, s₁, read, h⟩ := bind_eq_ok h
  obtain ⟨rfl, rfl⟩ := Reading.pure_eq_ok h
  exact ⟨e, rfl, Expr.derives_of_read read⟩

/-- A variable or constant, whose keyword stands right before. -/
theorem forms_of_readVariable (constant : Bool) {s₀ : Stream} {st : Stmt}
    (keyword : s₀.kind = if constant then .kwConst else .kwVar)
    (h : readVariable mode constant n s₀.advance = .ok st s') : Forms mode s₀ (.stmt st) s' := by
  rw [readVariable] at h
  obtain ⟨named, h⟩ := Reading.expect_bind_eq_ok h
  rcases Reading.eat_bind_eq_ok h with ⟨equal, h⟩ | ⟨other, h⟩
  · simp only [↓reduceIte] at h
    obtain ⟨value, s₁, read, h⟩ := bind_eq_ok h
    obtain ⟨e, rfl, derived⟩ := some_of_read read
    simp only [Option.isNone_some, Bool.and_false, Bool.false_eq_true, ↓reduceIte] at h
    obtain ⟨u, s₂, ended, h⟩ := bind_eq_ok h
    obtain ⟨rfl, rfl⟩ := Reading.pure_eq_ok h
    exact .variableSet keyword named equal derived (terminated_of_read ended)
  · simp only [Bool.false_eq_true, ↓reduceIte, pure_bind, Option.isNone_none, Bool.and_true] at h
    cases constant with
    | true => cases h
    | false =>
      simp only [Bool.false_eq_true, ↓reduceIte] at h
      obtain ⟨u, s₂, ended, h⟩ := bind_eq_ok h
      obtain ⟨rfl, rfl⟩ := Reading.pure_eq_ok h
      exact .variableOnly keyword named other (terminated_of_read ended)

/-- The end of a return, which may be missing at the end of the tokens. -/
theorem returnEnd_of_read {st result : Stmt}
    (h : (do
      if (← Reading.kind) ≠ .eof then readTerminator mode .returnEnd
      return st : Reading Stmt) s = .ok result s') :
    result = st ∧ (s.kind = .eof ∧ s' = s ∨ Terminated mode s s') := by
  rw [Expr.kind_bind] at h
  by_cases eof : s.kind = .eof
  · rw [if_neg (not_not_intro eof)] at h
    obtain ⟨rfl, rfl⟩ := Reading.pure_eq_ok h
    exact ⟨rfl, .inl ⟨eof, rfl⟩⟩
  · rw [if_pos eof] at h
    obtain ⟨u, s₁, ended, h⟩ := bind_eq_ok h
    obtain ⟨rfl, rfl⟩ := Reading.pure_eq_ok h
    exact ⟨rfl, .inr (terminated_of_read ended)⟩

/-- A return, whose keyword stands right before. -/
theorem forms_of_readReturn {s₀ : Stream} {st : Stmt} (keyword : s₀.kind = .kwReturn)
    (h : readReturn mode s₀.here.span n s₀.advance = .ok st s') :
    Forms mode s₀ (.plain st) s' := by
  rw [readReturn, Expr.kind_bind] at h
  by_cases bare : s₀.advance.kind = .semicolon ∨ s₀.advance.kind = .eof
  · rw [if_pos bare, pure_bind] at h
    obtain ⟨rfl, ended⟩ := returnEnd_of_read h
    exact .ret keyword bare ended
  · rw [if_neg bare] at h
    obtain ⟨value, s₁, read, h⟩ := bind_eq_ok h
    obtain ⟨e, rfl, derived⟩ := some_of_read read
    obtain ⟨rfl, ended⟩ := returnEnd_of_read h
    exact .retValue keyword derived ended

end

/-! ### Productions -/

namespace Stmt

/-- What the productions for statements give with a bound on the nesting is formed. -/
structure Sound (mode : Mode) (n : Nat) : Prop where
  read : (Stmt.read mode n).Gives fun s st s' => Forms mode s (.stmt st) s'
  readPlain : (Stmt.readPlain mode n).Gives fun s st s' => Forms mode s (.plain st) s'
  readBlock : (Stmt.readBlock mode n).Gives fun s body s' => Forms mode s (.block body) s'
  readFunction : ∀ name isMethod, (Stmt.readFunction mode name isMethod n).Gives
    fun s decl s' => Forms mode s (.function name isMethod decl) s'
  readClass : (Stmt.readClass mode n).Gives fun s decl s' => Forms mode s (.classDecl decl) s'
  readMembers : (Stmt.readMembers mode n).Gives fun s ms s' => Forms mode s (.members ms) s'

open PageReading

theorem sound_zero (mode : Mode) : Sound mode 0 where
  read := gives_fail
  readPlain := gives_fail
  readBlock := gives_fail
  readFunction := fun _ _ => gives_fail
  readClass := gives_fail
  readMembers := gives_fail

variable {mode : Mode} {n : Nat}

theorem gives_expr : (liftM (Expr.read n) : PageReading Expr).Gives
    fun s e s' => Derives s (.expr 0 e) s' :=
  gives_lift fun _ _ _ => Expr.derives_of_read

theorem gives_terminator {expected : Expectation} :
    (liftM (readTerminator mode expected) : PageReading Unit).Gives
      fun s _ s' => Terminated mode s s' :=
  gives_lift fun _ _ _ => terminated_of_read

theorem Sound.read_succ (sound : Sound mode n) :
    (Stmt.read mode (n + 1)).Gives fun s st s' => Forms mode s (.stmt st) s' := by
  rw [Stmt.read]
  refine gives_kind_bind fun kind => ?_
  split
  · refine (gives_next.bind fun _ => gives_self (readVariable mode false n)).mono ?_
    rintro s st s' ⟨_, _, ⟨rfl, rfl⟩, read⟩ keyword
    exact forms_of_readVariable false keyword read
  · refine (gives_next.bind fun _ => gives_self (readVariable mode true n)).mono ?_
    rintro s st s' ⟨_, _, ⟨rfl, rfl⟩, read⟩ keyword
    exact forms_of_readVariable true keyword read
  · refine (gives_next.bind fun _ => gives_expect.bind fun name =>
      (sound.readFunction name.name false).bind fun decl =>
        gives_pure (Stmt.function decl)).mono ?_
    rintro s st s' ⟨_, _, ⟨rfl, rfl⟩, _, _, ⟨named, rfl, rfl⟩, decl, s₂, formed, rfl, rfl⟩ keyword
    exact .function keyword named formed
  · refine (gives_next.bind fun _ => sound.readClass.bind fun decl =>
      gives_pure (Stmt.classDecl decl)).mono ?_
    rintro s st s' ⟨_, _, ⟨rfl, rfl⟩, decl, s₂, formed, rfl, rfl⟩ keyword
    exact .classDecl keyword formed
  · exact sound.readPlain.mono fun s st s' formed _ => .plain formed

theorem Sound.readPlain_succ (sound : Sound mode n) :
    (Stmt.readPlain mode (n + 1)).Gives fun s st s' => Forms mode s (.plain st) s' := by
  rw [Stmt.readPlain]
  refine gives_kind_bind fun kind => ?_
  split
  · refine (gives_next.bind fun _ => sound.readBlock.bind fun body =>
      gives_pure (Stmt.block body)).mono ?_
    rintro s st s' ⟨_, _, ⟨rfl, rfl⟩, body, s₁, formed, rfl, rfl⟩ brace
    exact .block brace formed
  · refine (gives_next.bind fun _ => gives_expect.bind fun _ => gives_expr.bind fun condition =>
      gives_expect.bind fun _ => sound.readPlain.bind fun yes => gives_eat.bind
        (Q := fun eaten s st s' => (eaten = true ∧ ∃ no, Forms mode s (.plain no) s' ∧
          st = .branch condition yes (some no)) ∨ (eaten = false ∧ s' = s ∧
            st = .branch condition yes none)) fun eaten => ?_).mono ?_
    · cases eaten with
      | true =>
        refine (sound.readPlain.bind fun no =>
          gives_pure (Stmt.branch condition yes (some no))).mono ?_
        rintro s st s' ⟨no, s₁, formed, rfl, rfl⟩
        exact .inl ⟨rfl, no, formed, rfl⟩
      | false =>
        refine (gives_pure (Stmt.branch condition yes none)).mono ?_
        rintro s st s' ⟨rfl, rfl⟩
        exact .inr ⟨rfl, rfl, rfl⟩
    · rintro s st s' ⟨_, _, ⟨rfl, rfl⟩, _, _, ⟨opened, rfl, rfl⟩, condition, s₁, derived, _, _,
        ⟨closed, rfl, rfl⟩, yes, s₂, formed, eaten, s₃, ate, rest⟩ keyword
      -- the `else` that was eaten decides which of the two alternatives the rest is
      rcases ate with ⟨rfl, isElse, rfl⟩ | ⟨rfl, noElse, rfl⟩
      · rcases rest with ⟨-, no, formedNo, rfl⟩ | ⟨same, -⟩
        · exact .branchElse keyword opened derived closed formed isElse formedNo
        · cases same
      · rcases rest with ⟨same, -⟩ | ⟨-, rfl, rfl⟩
        · cases same
        · exact .branch keyword opened derived closed formed noElse
  · refine (gives_next.bind fun _ => gives_expect.bind fun _ => gives_expr.bind fun condition =>
      gives_expect.bind fun _ => sound.readPlain.bind fun body =>
        gives_pure (Stmt.loop condition body)).mono ?_
    rintro s st s' ⟨_, _, ⟨rfl, rfl⟩, _, _, ⟨opened, rfl, rfl⟩, condition, s₁, derived, _, _,
      ⟨closed, rfl, rfl⟩, body, s₂, formed, rfl, rfl⟩ keyword
    exact .loop keyword opened derived closed formed
  · refine (gives_next.bind fun keyword => gives_self (readReturn mode keyword.span n)).mono ?_
    rintro s st s' ⟨_, _, ⟨rfl, rfl⟩, read⟩ keyword
    exact forms_of_readReturn keyword read
  · refine (gives_expr.bind fun e => gives_terminator.bind fun _ =>
      gives_pure (Stmt.expr e)).mono ?_
    rintro s st s' ⟨e, s₁, derived, _, s₂, ended, rfl, rfl⟩ -
    exact .expr derived ended

theorem Sound.readBlock_succ (sound : Sound mode n) :
    (Stmt.readBlock mode (n + 1)).Gives fun s body s' => Forms mode s (.block body) s' := by
  rw [Stmt.readBlock]
  refine gives_kind_bind fun kind => ?_
  split
  · refine (gives_next.bind fun _ => gives_pure ([] : List Stmt)).mono ?_
    rintro s body s' ⟨_, _, ⟨rfl, rfl⟩, rfl, rfl⟩ brace
    exact .blockEnd brace
  · exact gives_fail
  · refine ((sound.read.recovering .inside).bind fun first => sound.readBlock.bind fun rest =>
      gives_pure (first.toList ++ rest)).mono ?_
    rintro s body s' ⟨_, s₁, ⟨st, rfl, formed⟩, rest, s₂, formedRest, rfl, rfl⟩ -
    exact .blockStmt formed formedRest

theorem Sound.readFunction_succ (sound : Sound mode n) (name : Name) (isMethod : Bool) :
    (Stmt.readFunction mode name isMethod (n + 1)).Gives
      fun s decl s' => Forms mode s (.function name isMethod decl) s' := by
  rw [Stmt.readFunction]
  refine ((gives_lift fun _ _ _ => parameters_of_read).bind fun params => gives_expect.bind fun _ =>
    sound.readBlock.bind fun body =>
      gives_pure (FunctionDecl.mk name params body isMethod)).mono ?_
  rintro s decl s' ⟨params, s₁, parameters, _, _, ⟨opened, rfl, rfl⟩, body, s₂, formed, rfl, rfl⟩
  exact .functionBody parameters opened formed

theorem Sound.readClass_succ (sound : Sound mode n) :
    (Stmt.readClass mode (n + 1)).Gives fun s decl s' => Forms mode s (.classDecl decl) s' := by
  rw [Stmt.readClass]
  refine gives_expect_bind fun name => ?_
  -- the colon decides between the two forms, and the name stands right before it
  refine (gives_eat.bind (Q := fun eaten s₂ decl s' => ∀ s : Stream, s.kind = .identifier →
    name = s.here → eaten = true ∧ s.advance.kind = .colon ∧ s₂ = s.advance.advance ∨
      eaten = false ∧ s₂ = s.advance → Forms mode s (.classDecl decl) s') fun eaten => ?_).mono ?_
  · cases eaten with
    | true =>
      simp only [↓reduceIte]
      refine (gives_expect.bind fun parent => gives_expect.bind fun _ =>
        sound.readMembers.bind fun members =>
          gives_pure (ClassDecl.ofMembers name.name (some parent.name) members)).mono ?_
      rintro s₂ decl s' ⟨_, _, ⟨parentNamed, rfl, rfl⟩, _, _, ⟨opened, rfl, rfl⟩, members, s₃,
        formed, rfl, rfl⟩ s named rfl (⟨-, colon, rfl⟩ | ⟨same, -⟩)
      · exact .subclass named colon parentNamed opened formed
      · cases same
    | false =>
      simp only [Bool.false_eq_true, ↓reduceIte, pure_bind]
      refine (gives_expect.bind fun _ => sound.readMembers.bind fun members =>
        gives_pure (ClassDecl.ofMembers name.name none members)).mono ?_
      rintro s₂ decl s' ⟨_, _, ⟨opened, rfl, rfl⟩, members, s₃, formed, rfl, rfl⟩ s named rfl
        (⟨same, -⟩ | ⟨-, rfl⟩)
      · cases same
      · exact .baseClass named opened formed
  · rintro s₁ decl s' ⟨eaten, s₂, ate, formed⟩ s named rfl rfl
    refine formed s named rfl ?_
    rcases ate with ⟨rfl, colon, rfl⟩ | ⟨rfl, -, rfl⟩
    · exact .inl ⟨rfl, colon, rfl⟩
    · exact .inr ⟨rfl, rfl⟩

theorem Sound.readMembers_succ (sound : Sound mode n) :
    (Stmt.readMembers mode (n + 1)).Gives fun s ms s' => Forms mode s (.members ms) s' := by
  rw [Stmt.readMembers]
  refine gives_kind_bind fun kind => ?_
  split
  · refine (gives_next.bind fun _ => gives_pure ([] : List Member)).mono ?_
    rintro s ms s' ⟨_, _, ⟨rfl, rfl⟩, rfl, rfl⟩ brace
    exact .membersEnd brace
  · exact gives_fail
  · refine (gives_expect_bind fun name => gives_kind_bind fun kind => ?_).mono
      fun s ms s' formed _ => formed
    split
    · refine (gives_next.bind fun _ => gives_expr.bind fun value => gives_terminator.bind
        fun _ => sound.readMembers.bind fun rest =>
          gives_pure (Member.field ⟨name.name, value⟩ :: rest)).mono ?_
      rintro s₁ ms s' ⟨_, _, ⟨rfl, rfl⟩, value, s₂, derived, _, s₃, ended, rest, s₄, formed,
        rfl, rfl⟩ equal s named rfl rfl
      exact .field named equal derived ended formed
    · rw [map_eq_pure_bind, bind_assoc]
      simp only [pure_bind]
      refine ((sound.readFunction name.name true).bind fun decl => sound.readMembers.bind
        fun rest => gives_pure (Member.method decl :: rest)).mono ?_
      rintro s₁ ms s' ⟨decl, s₂, formed, rest, s₃, formedRest, rfl, rfl⟩ - s named rfl rfl
      exact .method named formed formedRest
    · -- no member goes on like this, and the failure ends the list
      intro page
      exact Nat.le_refl _

theorem sound (mode : Mode) : ∀ n, Sound mode n
  | 0 => sound_zero mode
  | n + 1 =>
    have ih := sound mode n
    { read := ih.read_succ
      readPlain := ih.readPlain_succ
      readBlock := ih.readBlock_succ
      readFunction := ih.readFunction_succ
      readClass := ih.readClass_succ
      readMembers := ih.readMembers_succ }

end Stmt

/-! ### Programs -/

theorem gives_readProgram (mode : Mode) (n : Nat) :
    (readProgram mode n).Gives fun s p s' => Forms mode s (.program p) s' := by
  induction n with
  | zero => exact PageReading.gives_fail
  | succ n ih =>
    rw [readProgram]
    refine PageReading.gives_kind_bind fun kind => ?_
    by_cases eof : kind = .eof
    · rw [if_pos eof]
      refine (PageReading.gives_pure ([] : List Stmt)).mono ?_
      rintro s p s' ⟨rfl, rfl⟩ here
      exact .programEnd (here.trans eof)
    · rw [if_neg eof]
      refine (((Stmt.sound mode n).read.recovering .outside).bind fun first => ih.bind
        fun rest => PageReading.gives_pure (first.toList ++ rest)).mono ?_
      rintro s p s' ⟨_, s₁, ⟨st, rfl, formed⟩, rest, s₂, formedRest, rfl, rfl⟩ -
      exact .programStmt formed formedRest

/-- A program that was read without problems is formed by all tokens of its stream. -/
theorem forms_of_ofStream {mode : Mode} {s : Stream}
    (clean : (Program.ofStream mode s).errors = []) :
    ∃ s', Forms mode s (.program (Program.ofStream mode s).statements) s' := by
  have gives := gives_readProgram mode s.nestingBound ⟨s, []⟩
  unfold Program.ofStream at clean ⊢
  cases read : readProgram mode s.nestingBound ⟨s, []⟩ with
  | ok p page =>
    rw [read] at gives clean
    exact ⟨page.stream, gives.2 (by rw [show page.errors = [] from clean])⟩
  | error e page =>
    rw [read] at clean
    exact absurd clean (List.append_ne_nil_of_right_ne_nil _ (List.cons_ne_nil _ _))

end Scriptlet
