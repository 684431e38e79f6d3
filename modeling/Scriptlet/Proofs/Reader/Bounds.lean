import Scriptlet.Proofs.Reader.Join

/-!
# Reading ends

Every production counts down a bound on the nesting, and `Stream.nestingBound` is always enough: no
reading of a program gives up because of it, whatever the tokens are (`readProgram_ends`). Between
two tokens that are passed only a few productions can start, at most one of each kind, so a bound
that is linear in the number of tokens ahead suffices; `Expr.Funded` and `Stmt.Funded` say for every
production how much of it is needed where it starts. A larger bound makes no difference then.

With what holds of the way through the tokens this is the main statement,
`reading_ends_in_bounds`.
-/

namespace Scriptlet

/-! ## Expressions -/

namespace Reading

variable {α β : Type}

/-- From a token of a kind in `K` with at most `a` tokens after it, the reading does not give up
because of the bound on the nesting. -/
def Ample (K : TokenKind → Prop) (a : Nat) (r : Reading α) : Prop :=
  ∀ s, s.Ends → K s.kind → s.ahead.length ≤ a → ∀ e s', r s = .error e s' →
    e.expected ≠ .lessNesting

variable {K J : TokenKind → Prop} {a : Nat} {r : Reading α}

theorem Ample.mono (h : r.Ample K a) (start : ∀ kind, J kind → K kind) : r.Ample J a :=
  fun s ends here few => h s ends (start _ here) few

theorem ample_of_ok (h : ∀ s, ∃ x s', r s = .ok x s') : r.Ample K a := by
  intro s _ _ _ e s' failed
  obtain ⟨x, s₁, read⟩ := h s
  rw [read] at failed
  cases failed

theorem ample_pure (x : α) : (pure x : Reading α).Ample K a := ample_of_ok fun s => ⟨x, s, rfl⟩

theorem ample_fail {expected : Expectation} (other : expected ≠ .lessNesting) :
    (fail expected : Reading α).Ample K a := by
  intro s _ _ _ e s' failed
  cases failed
  exact other

theorem Ample.bind {k : α → Reading β} (hr : r.Ample K a) (walks : r.Walks)
    (hk : ∀ x, (k x).Ample Anywhere a) : (r >>= k).Ample K a := by
  intro s ends here few e s' failed
  rcases bind_eq_error failed with failed | ⟨x, s₁, first, failed⟩
  · exact hr s ends here few e s' failed
  · have way := walks.ok s x s₁ first
    exact hk x s₁ (way.ends ends) trivial (Nat.le_trans way.ahead_le few) e s' failed

/-- A step that, if it succeeds, has passed a token. -/
theorem Ample.bind_of_moves {k : α → Reading β} (hr : r.Ample K a) (walks : r.Walks)
    (moves : ∀ s, s.Ends → K s.kind → ∀ x s', r s = .ok x s' → s.position < s'.position)
    (hk : ∀ b, a = b + 1 → ∀ x, (k x).Ample Anywhere b) : (r >>= k).Ample K a := by
  intro s ends here few e s' failed
  rcases bind_eq_error failed with failed | ⟨x, s₁, first, failed⟩
  · exact hr s ends here few e s' failed
  · have way := walks.ok s x s₁ first
    have fewer := way.ahead_lt (moves s ends here x s₁ first)
    exact hk (a - 1) (by omega) x s₁ (way.ends ends) trivial (by omega) e s' failed

theorem ample_kind_bind {k : TokenKind → Reading β} (hk : ∀ kind, (k kind).Ample (· = kind) a) :
    (kind >>= k).Ample K a :=
  fun s ends _ few => hk s.kind s ends rfl few

theorem ample_here_bind {k : Token → Reading β} (hk : ∀ t, (k t).Ample (· = t.kind) a) :
    (here >>= k).Ample K a :=
  fun s ends _ few => hk s.here s ends rfl few

theorem ample_next_bind {kind : TokenKind} {k : Token → Reading β} (inner : kind ≠ .eof)
    (hk : ∀ b, a = b + 1 → ∀ t, (k t).Ample Anywhere b) :
    (next >>= k).Ample (· = kind) a := by
  have one : next.Ample (· = kind) a := ample_of_ok fun s => ⟨_, _, rfl⟩
  refine one.bind_of_moves forward.next (fun s ends here t s' read => ?_) hk
  cases read
  exact (Stream.Forward.refl s.advance).moved ends fun eof => inner (here.symm.trans eof)

theorem ample_expect {kind : TokenKind} {expected : Expectation}
    (other : expected ≠ .lessNesting) : (expect kind expected).Ample K a := by
  intro s _ _ _ e s' failed
  unfold expect at failed
  split at failed <;> cases failed
  exact other

theorem moved_of_expect {kind : TokenKind} {expected : Expectation} {s s' : Stream} {t : Token}
    (inner : kind ≠ .eof) (ends : s.Ends) (read : expect kind expected s = .ok t s') :
    s.position < s'.position := by
  unfold expect at read
  split at read
  · next here =>
    cases read
    exact (Stream.Forward.refl s.advance).moved ends fun eof => inner (here.symm.trans eof)
  · cases read

theorem ample_expect_bind {kind : TokenKind} {expected : Expectation} {k : Token → Reading β}
    (plain : kind ≠ .eof ∧ expected ≠ .lessNesting)
    (hk : ∀ b, a = b + 1 → ∀ t, (k t).Ample Anywhere b) : (expect kind expected >>= k).Ample K a :=
  (ample_expect plain.2).bind_of_moves (forward.expect_of kind (walks_fail expected))
    (fun _ ends _ _ _ read => moved_of_expect plain.1 ends read) hk

theorem ample_eat {kind : TokenKind} : (eat kind).Ample K a := by
  intro s _ _ _ e s' failed
  unfold eat at failed
  split at failed <;> cases failed

theorem ample_eat_bind {kind : TokenKind} {k : Bool → Reading β} (inner : kind ≠ .eof)
    (found : ∀ b, a = b + 1 → (k true).Ample Anywhere b) (missing : (k false).Ample Anywhere a) :
    (eat kind >>= k).Ample K a := by
  intro s ends _ few e s' failed
  by_cases here : s.kind = kind
  · have fewer := Stream.ahead_advance ends fun eof => inner (here.symm.trans eof)
    rw [bind_of_ok (eat_of_kind here)] at failed
    have later := s.forward_advance.ends ends
    exact found (a - 1) (by omega) s.advance later trivial (by omega) e s' failed
  · rw [bind_of_ok (eat_of_ne here)] at failed
    exact missing s ends trivial few e s' failed

theorem ample_expr_bind {n : Nat} {k : Expr → Reading β} (hr : (Expr.read n).Ample K a)
    (hk : ∀ b, a = b + 1 → ∀ e, (k e).Ample Anywhere b) : (Expr.read n >>= k).Ample K a :=
  hr.bind_of_moves (walks_expr n) (fun _ ends _ _ _ read => Expr.moved_of_read ends read) hk

end Reading

namespace Expr

open Reading

/-- What each production needs, with `a` tokens after the one it starts at. -/
structure Funded (n : Nat) : Prop where
  read : ∀ a, 32 * a + 13 ≤ n → (Expr.read n).Ample Anywhere a
  readLevel : ∀ a level, level ≤ 7 → 32 * a + 12 ≤ n + level →
    (Expr.readLevel n level).Ample Anywhere a
  readLevelRest : ∀ a level left, level < 7 → 32 * a + 1 ≤ n →
    (Expr.readLevelRest n level left).Ample Anywhere a
  readSigned : ∀ a, 32 * a + 4 ≤ n → (Expr.readSigned n).Ample Anywhere a
  readStepped : ∀ a, 32 * a + 3 ≤ n → (Expr.readStepped n).Ample Anywhere a
  readOperand : ∀ a, 32 * a + 2 ≤ n → (Expr.readOperand n).Ample Anywhere a
  readPrimary : ∀ a, 32 * a + 1 ≤ n → (Expr.readPrimary n).Ample Anywhere a
  readElements : ∀ a, 32 * a + 14 ≤ n → (Expr.readElements n).Ample Anywhere a
  readChain : ∀ a target, 32 * a + 1 ≤ n → (Expr.readChain n target).Ample Anywhere a
  readArguments : ∀ a, 32 * a + 15 ≤ n → (Expr.readArguments n).Ample Anywhere a
  readArgumentsRest : ∀ a, 32 * a + 14 ≤ n → (Expr.readArgumentsRest n).Ample Anywhere a

theorem funded_zero : Funded 0 := by
  constructor <;> intros <;> omega

variable {n : Nat}

theorem Funded.read_succ (ih : Funded n) (a : Nat) (paid : 32 * a + 13 ≤ n + 1) :
    (Expr.read (n + 1)).Ample Anywhere a := by
  have walks := Expr.lawful forward (Nat.le_refl n)
  unfold Expr.read
  refine (ih.readLevel a 0 (by decide) (by omega)).bind (walks.readLevel 0) fun condition => ?_
  refine ample_eat_bind (by decide) (fun b some => ?_) (ample_pure condition)
  refine ample_expr_bind (ih.read b (by omega)) fun c some yes => ?_
  refine ample_expect_bind (by decide) fun d some _ => ?_
  exact ample_expr_bind (ih.read d (by omega)) fun _ _ no => ample_pure _

theorem Funded.readLevel_succ (ih : Funded n) (a level : Nat) (small : level ≤ 7)
    (paid : 32 * a + 12 ≤ n + 1 + level) : (Expr.readLevel (n + 1) level).Ample Anywhere a := by
  have walks := Expr.lawful forward (Nat.le_refl n)
  unfold Expr.readLevel
  split
  · next inner =>
    have inner : level < 7 := inner
    refine (ih.readLevel a (level + 1) inner (by omega)).bind (walks.readLevel _) fun left => ?_
    exact ih.readLevelRest a level left inner (by omega)
  · exact ih.readSigned a (by omega)

theorem Funded.readLevelRest_succ (ih : Funded n) (a level : Nat) (left : Expr) (inner : level < 7)
    (paid : 32 * a + 1 ≤ n + 1) : (Expr.readLevelRest (n + 1) level left).Ample Anywhere a := by
  have walks := Expr.lawful forward (Nat.le_refl n)
  unfold Expr.readLevelRest
  refine ample_kind_bind fun kind => ?_
  cases found : Infix.at? level kind with
  | none => exact ample_pure left
  | some op =>
    simp only [Infix.at?, Option.filter_eq_some_iff] at found
    refine ample_next_bind (ofToken_ne rfl found.1) fun b some _ => ?_
    refine (ih.readLevel b (level + 1) inner (by omega)).bind (walks.readLevel _) fun right => ?_
    exact ih.readLevelRest b level _ inner (by omega)

theorem Funded.readSigned_succ (ih : Funded n) (a : Nat) (paid : 32 * a + 4 ≤ n + 1) :
    (Expr.readSigned (n + 1)).Ample Anywhere a := by
  have walks := Expr.lawful forward (Nat.le_refl n)
  unfold Expr.readSigned
  refine ample_kind_bind fun kind => ?_
  cases found : UnaryOp.ofToken? kind with
  | none => exact (ih.readStepped a (by omega)).mono fun _ _ => trivial
  | some op =>
    refine ample_next_bind (ofToken_ne rfl found) fun b some sign => ?_
    exact (ih.readSigned b (by omega)).bind walks.readSigned fun operand => ample_pure _

theorem Funded.readStepped_succ (ih : Funded n) (a : Nat) (paid : 32 * a + 3 ≤ n + 1) :
    (Expr.readStepped (n + 1)).Ample Anywhere a := by
  have walks := Expr.lawful forward (Nat.le_refl n)
  unfold Expr.readStepped
  refine ample_kind_bind fun kind => ?_
  cases found : StepOp.ofToken? kind with
  | none => exact (ih.readOperand a (by omega)).mono fun _ _ => trivial
  | some op =>
    refine ample_next_bind (ofToken_ne rfl found) fun b some step => ?_
    exact (ih.readOperand b (by omega)).bind walks.readOperand fun operand => ample_pure _

theorem Funded.readOperand_succ (ih : Funded n) (a : Nat) (paid : 32 * a + 2 ≤ n + 1) :
    (Expr.readOperand (n + 1)).Ample Anywhere a := by
  have walks := Expr.lawful forward (Nat.le_refl n)
  unfold Expr.readOperand
  refine (ih.readPrimary a (by omega)).bind walks.readPrimary fun operand => ?_
  refine ample_kind_bind fun kind => ?_
  cases found : StepOp.ofToken? kind with
  | none => exact ample_pure operand
  | some op => exact ample_next_bind (ofToken_ne rfl found) fun b some step => ample_pure _

theorem Funded.readPrimary_succ (ih : Funded n) (a : Nat) (paid : 32 * a + 1 ≤ n + 1) :
    (Expr.readPrimary (n + 1)).Ample Anywhere a := by
  have walks := Expr.lawful forward (Nat.le_refl n)
  unfold Expr.readPrimary
  refine ample_here_bind fun first => ?_
  cases first.kind
  case numberLiteral | textLiteral =>
    cases first.literal with
    | none => exact ample_fail (by decide)
    | some value => exact ample_next_bind (by decide) fun _ _ _ => ample_pure _
  case kwTrue | kwFalse | kwNull => exact ample_next_bind (by decide) fun _ _ _ => ample_pure _
  case leftBracket =>
    refine ample_next_bind (by decide) fun b some _ => ?_
    exact (ih.readElements b (by omega)).bind walks.readElements fun _ => ample_pure _
  case leftParen =>
    refine ample_next_bind (by decide) fun b some _ => ?_
    refine ample_expr_bind (ih.read b (by omega)) fun _ _ inner => ?_
    exact ample_expect_bind (by decide) fun _ _ close => ample_pure _
  case identifier => exact ample_next_bind (by decide) fun b some _ => ih.readChain b _ (by omega)
  all_goals exact ample_fail (by decide)

/-- An element consists of a token at least, so less is needed for those after it. -/
theorem Funded.element (ih : Funded n) (a : Nat) (paid : 32 * a + 14 ≤ n + 1) :
    (do
      let element ← Expr.read n
      let _ ← eat .comma
      let (rest, close) ← Expr.readElements n
      return (element :: rest, close) : Reading (List Expr × Span)).Ample Anywhere a := by
  have walks := Expr.lawful forward (Nat.le_refl n)
  refine ample_expr_bind (ih.read a (by omega)) fun b some element => ?_
  refine ample_eat_bind (by decide) (fun c some => ?_) ?_
  · exact (ih.readElements c (by omega)).bind walks.readElements fun _ => ample_pure _
  · exact (ih.readElements b (by omega)).bind walks.readElements fun _ => ample_pure _

theorem Funded.readElements_succ (ih : Funded n) (a : Nat) (paid : 32 * a + 14 ≤ n + 1) :
    (Expr.readElements (n + 1)).Ample Anywhere a := by
  unfold Expr.readElements
  refine ample_kind_bind fun kind => ?_
  cases kind
  case rightBracket => exact ample_next_bind (by decide) fun _ _ close => ample_pure _
  case eof => exact ample_fail (by decide)
  all_goals exact (ih.element a paid).mono fun _ _ => trivial

/-- What may follow a chain that has no further link. -/
theorem Funded.compound (ih : Funded n) (a : Nat) (target : Expr) (kind : TokenKind)
    (paid : 32 * a + 1 ≤ n + 1) :
    (match BinaryOp.ofCompound? kind with
      | some op => do
        let _ ← Reading.next
        let value ← Expr.read n
        let combined := .binary (target.span.merge value.span) op target value
        return .assigned target combined
      | none => return target : Reading Expr).Ample (· = kind) a := by
  cases found : BinaryOp.ofCompound? kind with
  | none => exact ample_pure target
  | some op =>
    refine ample_next_bind (ofToken_ne rfl found) fun b some _ => ?_
    exact ample_expr_bind (ih.read b (by omega)) fun _ _ value => ample_pure _

theorem Funded.readChain_succ (ih : Funded n) (a : Nat) (target : Expr)
    (paid : 32 * a + 1 ≤ n + 1) : (Expr.readChain (n + 1) target).Ample Anywhere a := by
  have walks := Expr.lawful forward (Nat.le_refl n)
  unfold Expr.readChain
  refine ample_kind_bind fun kind => ?_
  have otherwise := ih.compound a target kind paid
  cases kind
  case equal =>
    refine ample_next_bind (by decide) fun b some _ => ?_
    exact ample_expr_bind (ih.read b (by omega)) fun _ _ value => ample_pure _
  case dot =>
    refine ample_next_bind (by decide) fun b some _ => ?_
    refine ample_expect_bind (by decide) fun c some field => ?_
    exact ih.readChain c _ (by omega)
  case leftBracket =>
    refine ample_next_bind (by decide) fun b some _ => ?_
    refine ample_expr_bind (ih.read b (by omega)) fun c some position => ?_
    exact ample_expect_bind (by decide) fun d some close => ih.readChain d _ (by omega)
  case leftParen =>
    refine ample_next_bind (by decide) fun b some _ => ?_
    refine (ih.readArguments b (by omega)).bind walks.readArguments fun _ => ?_
    exact ih.readChain b _ (by omega)
  all_goals exact otherwise

theorem Funded.readArguments_succ (ih : Funded n) (a : Nat) (paid : 32 * a + 15 ≤ n + 1) :
    (Expr.readArguments (n + 1)).Ample Anywhere a := by
  unfold Expr.readArguments
  refine ample_kind_bind fun kind => ?_
  split
  · next closed =>
    subst closed
    exact ample_next_bind (by decide) fun _ _ close => ample_pure _
  · exact (ih.readArgumentsRest a (by omega)).mono fun _ _ => trivial

theorem Funded.readArgumentsRest_succ (ih : Funded n) (a : Nat) (paid : 32 * a + 14 ≤ n + 1) :
    (Expr.readArgumentsRest (n + 1)).Ample Anywhere a := by
  have walks := Expr.lawful forward (Nat.le_refl n)
  unfold Expr.readArgumentsRest
  refine ample_expr_bind (ih.read a (by omega)) fun b some arg => ?_
  refine ample_eat_bind (by decide) (fun c some => ?_) ?_
  · exact (ih.readArgumentsRest c (by omega)).bind walks.readArgumentsRest fun _ => ample_pure _
  · exact ample_expect_bind (by decide) fun _ _ close => ample_pure _

theorem funded (n : Nat) : Funded n := by
  induction n with
  | zero => exact funded_zero
  | succ n ih =>
    exact ⟨ih.read_succ, ih.readLevel_succ, ih.readLevelRest_succ, ih.readSigned_succ,
      ih.readStepped_succ, ih.readOperand_succ, ih.readPrimary_succ, ih.readElements_succ,
      ih.readChain_succ, ih.readArguments_succ, ih.readArgumentsRest_succ⟩

end Expr

/-! ## Pieces of statements -/

namespace Reading

variable {K : TokenKind → Prop} {mode : Mode} {n : Nat}

theorem ample_terminator {a : Nat} {expected : Expectation} (other : expected ≠ .lessNesting) :
    (readTerminator mode expected).Ample K a := by
  refine ample_eat_bind (by decide) (fun _ _ => ample_pure ()) ?_
  show Ample Anywhere a (if mode = .interactive then pure () else fail expected)
  split
  · exact ample_pure ()
  · exact ample_fail other

theorem ample_parametersRest (n a : Nat) (paid : 32 * a + 1 ≤ n) :
    (readParametersRest n).Ample Anywhere a := by
  induction n generalizing a with
  | zero => omega
  | succ n ih =>
    unfold readParametersRest
    refine ample_expect_bind (by decide) fun b some param => ?_
    refine ample_eat_bind (by decide) (fun c some => ?_) (ample_pure _)
    have walks := forward.parametersRest (Nat.le_refl n)
    exact (ih c (by omega)).bind walks fun rest => ample_pure _

theorem ample_parameters (n a : Nat) (paid : 32 * a ≤ n) :
    (readParameters n).Ample Anywhere a := by
  have closed (b : Nat) (params : List Name) :
      (do let _ ← expect .rightParen .closedParameters; return params :
        Reading (List Name)).Ample Anywhere b :=
    ample_expect_bind (by decide) fun _ _ _ => ample_pure params
  unfold readParameters
  refine ample_expect_bind (by decide) fun b some _ => ample_kind_bind fun kind => ?_
  split
  · exact (ample_pure _).bind (forward.value _) (closed b)
  · have rest := (ample_parametersRest n b (by omega)).mono (J := (· = kind)) fun _ _ => trivial
    exact rest.bind (forward.parametersRest (Nat.le_refl n)) (closed b)

theorem ample_someExpr (n a : Nat) (paid : 32 * a + 13 ≤ n) :
    (some <$> Expr.read n : Reading (Option Expr)).Ample Anywhere a := by
  rw [map_eq_pure_bind]
  exact ((Expr.funded n).read a paid).bind (walks_expr n) fun e => ample_pure _

theorem ample_variable (constant : Bool) (n a : Nat) (paid : 32 * a + 13 ≤ n) :
    (readVariable mode constant n).Ample Anywhere a := by
  have ended (b : Nat) (name : Token) (value : Option Expr) :
      (if (constant && value.isNone) = true then fail .constantValue
      else do
        readTerminator mode .declarationEnd
        return .declare name.name value constant : Reading Stmt).Ample Anywhere b := by
    split
    · exact ample_fail (by decide)
    · refine (ample_terminator (by decide)).bind ?_ fun _ => ample_pure _
      exact forward.terminator mode _ (by decide)
  unfold readVariable
  refine ample_expect_bind (by decide) fun b some name => ?_
  refine ample_eat_bind (by decide) (fun c some => ?_) ?_
  · exact (ample_someExpr n c (by omega)).bind (forward.someExpr (Nat.le_refl n)) (ended c name)
  · exact (ample_pure none).bind (forward.value none) (ended b name)

theorem ample_return (keyword : Span) (n a : Nat) (paid : 32 * a + 13 ≤ n) :
    (readReturn mode keyword n).Ample Anywhere a := by
  have ended (value : Option Expr) (span : Span) :
      (do
        if (← kind) ≠ .eof then readTerminator mode .returnEnd
        return .ret span value : Reading Stmt).Ample Anywhere a := by
    refine ample_kind_bind fun kind => ?_
    split
    · refine (ample_terminator (by decide)).bind ?_ fun _ => ample_pure _
      exact forward.terminator mode _ (by decide)
    · exact ample_pure _
  unfold readReturn
  refine ample_kind_bind fun first => ?_
  split
  · exact (ample_pure none).bind (forward.value none) fun value => ended value _
  · have value := (ample_someExpr n a paid).mono (J := (· = first)) fun _ _ => trivial
    exact value.bind (forward.someExpr (Nat.le_refl n)) fun value => ended value _

end Reading

/-! ## Statements -/

namespace PageReading

variable {α β : Type}

/-- The same for declarations; nor is a problem recorded that comes from the bound. -/
def Ample (K : TokenKind → Prop) (a : Nat) (r : PageReading α) : Prop :=
  ∀ page, page.stream.Ends → K page.stream.kind → page.stream.ahead.length ≤ a →
    Shallow page.errors →
    (∀ x page', r page = .ok x page' → Shallow page'.errors) ∧
    ∀ e page', r page = .error e page' → Shallow (page'.errors ++ [e])

variable {K J : TokenKind → Prop} {a : Nat} {r : PageReading α}

theorem Ample.mono (h : r.Ample K a) (start : ∀ kind, J kind → K kind) : r.Ample J a :=
  fun page ends here few => h page ends (start _ here) few

theorem ample_lift {r : Reading α} (h : r.Ample K a) : (liftM r : PageReading α).Ample K a := by
  intro page ends here few shallow
  constructor
  · intro x page' read
    obtain ⟨s, -, rfl⟩ := lift_eq_ok read
    exact shallow
  · intro e page' failed
    obtain ⟨s, first, rfl⟩ := lift_eq_error failed
    refine List.forall_mem_append.2 ⟨shallow, List.forall_mem_singleton.2 ?_⟩
    exact h page.stream ends here few e s first

theorem ample_pure (x : α) : (pure x : PageReading α).Ample K a :=
  ample_lift (Reading.ample_pure x)

theorem ample_fail {expected : Expectation} (other : expected ≠ .lessNesting) :
    (liftM (Reading.fail expected : Reading α) : PageReading α).Ample K a :=
  ample_lift (Reading.ample_fail other)

theorem Ample.bind {k : α → PageReading β} (hr : r.Ample K a) (walks : r.Walks)
    (hk : ∀ x, (k x).Ample Anywhere a) : (r >>= k).Ample K a := by
  intro page ends here few shallow
  have start := hr page ends here few shallow
  have later (x : α) (page₁ : Page) (first : r page = .ok x page₁) := by
    have way := (walks.ok page x page₁ first).stream
    exact hk x page₁ (way.ends ends) trivial (Nat.le_trans way.ahead_le few) (start.1 x page₁ first)
  constructor
  · intro y page' read
    obtain ⟨x, page₁, first, second⟩ := bind_eq_ok read
    exact (later x page₁ first).1 y page' second
  · intro e page' failed
    rcases bind_eq_error failed with failed | ⟨x, page₁, first, failed⟩
    · exact start.2 e page' failed
    · exact (later x page₁ first).2 e page' failed

theorem Ample.bind_of_moves {k : α → PageReading β} (hr : r.Ample K a) (walks : r.Walks)
    (moves : ∀ page, page.stream.Ends → K page.stream.kind → ∀ x page', r page = .ok x page' →
      page.stream.position < page'.stream.position)
    (hk : ∀ b, a = b + 1 → ∀ x, (k x).Ample Anywhere b) : (r >>= k).Ample K a := by
  intro page ends here few shallow
  have start := hr page ends here few shallow
  have later (x : α) (page₁ : Page) (first : r page = .ok x page₁) := by
    have way := (walks.ok page x page₁ first).stream
    have fewer := way.ahead_lt (moves page ends here x page₁ first)
    exact hk (a - 1) (by omega) x page₁ (way.ends ends) trivial (by omega) (start.1 x page₁ first)
  constructor
  · intro y page' read
    obtain ⟨x, page₁, first, second⟩ := bind_eq_ok read
    exact (later x page₁ first).1 y page' second
  · intro e page' failed
    rcases bind_eq_error failed with failed | ⟨x, page₁, first, failed⟩
    · exact start.2 e page' failed
    · exact (later x page₁ first).2 e page' failed

theorem ample_kind_bind {k : TokenKind → PageReading β}
    (hk : ∀ kind, (k kind).Ample (· = kind) a) : (liftM Reading.kind >>= k).Ample K a :=
  fun page ends _ few => hk page.stream.kind page ends rfl few

theorem moved_of_lift {r : Reading α} (moves : ∀ s, s.Ends → K s.kind → ∀ x s', r s = .ok x s' →
      s.position < s'.position) (page : Page) (ends : page.stream.Ends)
    (here : K page.stream.kind) (x : α) (page' : Page)
    (read : (liftM r : PageReading α) page = .ok x page') :
    page.stream.position < page'.stream.position := by
  obtain ⟨s, first, rfl⟩ := lift_eq_ok read
  exact moves page.stream ends here x s first

theorem ample_next_bind {kind : TokenKind} {k : Token → PageReading β} (inner : kind ≠ .eof)
    (hk : ∀ b, a = b + 1 → ∀ t, (k t).Ample Anywhere b) :
    (liftM Reading.next >>= k).Ample (· = kind) a := by
  have one : Reading.next.Ample (· = kind) a := Reading.ample_of_ok fun s => ⟨_, _, rfl⟩
  refine (ample_lift one).bind_of_moves (walks_lift Reading.forward.next)
    (moved_of_lift (K := (· = kind)) fun s ends here t s' read => ?_) hk
  cases read
  exact (Stream.Forward.refl s.advance).moved ends fun eof => inner (here.symm.trans eof)

theorem ample_expect_bind {kind : TokenKind} {expected : Expectation} {k : Token → PageReading β}
    (plain : kind ≠ .eof ∧ expected ≠ .lessNesting)
    (hk : ∀ b, a = b + 1 → ∀ t, (k t).Ample Anywhere b) :
    (liftM (Reading.expect kind expected) >>= k).Ample K a := by
  refine (ample_lift (Reading.ample_expect plain.2)).bind_of_moves
    (walks_lift (Reading.forward.expect_of kind (Reading.walks_fail expected)))
    (moved_of_lift fun s ends _ t s' read => ?_) hk
  exact Reading.moved_of_expect plain.1 ends read

theorem ample_expr_bind {n : Nat} {k : Expr → PageReading β} (paid : 32 * a + 13 ≤ n)
    (hk : ∀ b, a = b + 1 → ∀ e, (k e).Ample Anywhere b) :
    (liftM (Expr.read n) >>= k).Ample K a := by
  have read := ((Expr.funded n).read a paid).mono (J := K) fun _ _ => trivial
  exact (ample_lift read).bind_of_moves (walks_lift (Reading.walks_expr n))
    (moved_of_lift fun s ends _ e s' read => Expr.moved_of_read ends read) hk

theorem Ample.recovering (h : r.Ample K a) (boundary : Boundary) :
    (recovering boundary r).Ample K a := by
  intro page ends here few shallow
  have start := h page ends here few shallow
  refine ⟨fun o page' read => ?_, fun e page' failed => absurd failed recovering_ne_error⟩
  obtain ⟨x, -, read⟩ | ⟨e, page₁, -, failed, rfl⟩ := recovering_eq_ok read
  · exact start.1 x page' read
  · exact start.2 e page₁ failed

/-- A declaration before the end, whether it can be read or not, leaves less to be read. -/
theorem ample_recovering_bind {mode : Mode} {n : Nat} {boundary : Boundary}
    {k : Option Stmt → PageReading β} (hr : (Stmt.read mode n).Ample Anywhere a)
    (inner : ∀ kind, K kind → kind ≠ .eof) (hk : ∀ b, a = b + 1 → ∀ o, (k o).Ample Anywhere b) :
    (recovering boundary (Stmt.read mode n) >>= k).Ample K a := by
  refine ((hr.mono fun _ _ => trivial).recovering boundary).bind_of_moves
    ((Stmt.walks mode n).read.recovering boundary) (fun page ends here o page' read => ?_) hk
  obtain ⟨outcome, page₁, same, moved⟩ := Stmt.recovering_moves boundary ends (inner _ here)
  rw [same] at read
  cases read
  exact moved

end PageReading

namespace Stmt

open PageReading

/-- What each production for statements needs, with `a` tokens after the one it starts at. -/
structure Funded (mode : Mode) (n : Nat) : Prop where
  read : ∀ a, 32 * a + 15 ≤ n → (Stmt.read mode n).Ample Anywhere a
  readPlain : ∀ a, 32 * a + 14 ≤ n → (Stmt.readPlain mode n).Ample Anywhere a
  readBlock : ∀ a, 32 * a + 16 ≤ n → (Stmt.readBlock mode n).Ample Anywhere a
  readFunction : ∀ a name isMethod, 32 * a + 1 ≤ n →
    (Stmt.readFunction mode name isMethod n).Ample Anywhere a
  readClass : ∀ a, 32 * a + 1 ≤ n → (Stmt.readClass mode n).Ample Anywhere a
  readMembers : ∀ a, 32 * a + 1 ≤ n → (Stmt.readMembers mode n).Ample Anywhere a

theorem funded_zero (mode : Mode) : Funded mode 0 := by
  constructor <;> intros <;> omega

variable {mode : Mode} {n : Nat}

theorem Funded.read_succ (ih : Funded mode n) (a : Nat) (paid : 32 * a + 15 ≤ n + 1) :
    (Stmt.read mode (n + 1)).Ample Anywhere a := by
  have walks := Stmt.walks mode n
  unfold Stmt.read
  refine ample_kind_bind fun kind => ?_
  cases kind
  case kwVar | kwConst =>
    refine ample_next_bind (by decide) fun b some _ => ?_
    exact ample_lift (Reading.ample_variable _ n b (by omega))
  case kwFunction =>
    refine ample_next_bind (by decide) fun b some _ => ?_
    refine ample_expect_bind (by decide) fun c some name => ?_
    exact (ih.readFunction c _ _ (by omega)).bind (walks.readFunction _ _) fun _ => ample_pure _
  case kwClass =>
    refine ample_next_bind (by decide) fun b some _ => ?_
    exact (ih.readClass b (by omega)).bind walks.readClass fun _ => ample_pure _
  all_goals exact (ih.readPlain a (by omega)).mono fun _ _ => trivial

theorem Funded.readPlain_succ (ih : Funded mode n) (a : Nat) (paid : 32 * a + 14 ≤ n + 1) :
    (Stmt.readPlain mode (n + 1)).Ample Anywhere a := by
  have walks := Stmt.walks mode n
  unfold Stmt.readPlain
  refine ample_kind_bind fun kind => ?_
  cases kind
  case leftBrace =>
    refine ample_next_bind (by decide) fun b some _ => ?_
    exact (ih.readBlock b (by omega)).bind walks.readBlock fun _ => ample_pure _
  case kwIf =>
    refine ample_next_bind (by decide) fun b some _ => ?_
    refine ample_expect_bind (by decide) fun c some _ => ?_
    refine ample_expr_bind (by omega) fun d some condition => ?_
    refine ample_expect_bind (by decide) fun e some _ => ?_
    refine (ih.readPlain e (by omega)).bind walks.readPlain fun yes => ?_
    refine (ample_lift Reading.ample_eat).bind (walks_lift (Reading.forward.eat _)) fun more => ?_
    split
    · exact (ih.readPlain e (by omega)).bind walks.readPlain fun _ => ample_pure _
    · exact ample_pure _
  case kwWhile =>
    refine ample_next_bind (by decide) fun b some _ => ?_
    refine ample_expect_bind (by decide) fun c some _ => ?_
    refine ample_expr_bind (by omega) fun d some condition => ?_
    refine ample_expect_bind (by decide) fun e some _ => ?_
    exact (ih.readPlain e (by omega)).bind walks.readPlain fun _ => ample_pure _
  case kwReturn =>
    refine ample_next_bind (by decide) fun b some t => ?_
    exact ample_lift (Reading.ample_return t.span n b (by omega))
  all_goals
    refine ample_expr_bind (by omega) fun b some e => ?_
    refine (ample_lift (Reading.ample_terminator (by decide))).bind ?_ fun _ => ample_pure _
    exact walks_lift (Reading.forward.terminator mode _ (by decide))

/-- A declaration in a block leaves less for those after it. -/
theorem Funded.blockItem (ih : Funded mode n) (a : Nat) {K : TokenKind → Prop}
    (inner : ∀ kind, K kind → kind ≠ .eof) (paid : 32 * a + 16 ≤ n + 1) :
    (do
      let first ← PageReading.recovering .inside (Stmt.read mode n)
      let rest ← Stmt.readBlock mode n
      return first.toList ++ rest).Ample K a := by
  refine ample_recovering_bind (ih.read a (by omega)) inner fun b some first => ?_
  exact (ih.readBlock b (by omega)).bind (Stmt.walks mode n).readBlock fun _ => ample_pure _

theorem Funded.readBlock_succ (ih : Funded mode n) (a : Nat) (paid : 32 * a + 16 ≤ n + 1) :
    (Stmt.readBlock mode (n + 1)).Ample Anywhere a := by
  unfold Stmt.readBlock
  refine ample_kind_bind fun kind => ?_
  cases kind
  case rightBrace => exact ample_next_bind (by decide) fun _ _ _ => ample_pure _
  case eof => exact ample_fail (by decide)
  all_goals exact ih.blockItem a (by rintro _ rfl; decide) paid

theorem Funded.readFunction_succ (ih : Funded mode n) (a : Nat) (name : Name) (isMethod : Bool)
    (paid : 32 * a + 1 ≤ n + 1) :
    (Stmt.readFunction mode name isMethod (n + 1)).Ample Anywhere a := by
  unfold Stmt.readFunction
  refine (ample_lift (Reading.ample_parameters n a (by omega))).bind
    (walks_lift (Reading.forward.parameters (Nat.le_refl n))) fun params => ?_
  refine ample_expect_bind (by decide) fun b some _ => ?_
  exact (ih.readBlock b (by omega)).bind (Stmt.walks mode n).readBlock fun _ => ample_pure _

theorem Funded.readClass_succ (ih : Funded mode n) (a : Nat) (paid : 32 * a + 1 ≤ n + 1) :
    (Stmt.readClass mode (n + 1)).Ample Anywhere a := by
  have body (b : Nat) (paid : 32 * b + 1 ≤ n + 1) (name : Token) (superclass : Option Name) :
      (do
        let _ ← (Reading.expect .leftBrace .openClass : Reading Token)
        let members ← Stmt.readMembers mode n
        return ClassDecl.ofMembers name.name superclass members : PageReading _).Ample
        Anywhere b := by
    refine ample_expect_bind (by decide) fun c some _ => ?_
    exact (ih.readMembers c (by omega)).bind (Stmt.walks mode n).readMembers fun _ => ample_pure _
  unfold Stmt.readClass
  refine ample_expect_bind (by decide) fun b some name => ?_
  refine (ample_lift Reading.ample_eat).bind (walks_lift (Reading.forward.eat _)) fun below => ?_
  cases below with
  | true => exact ample_expect_bind (by decide) fun c some token => body c (by omega) name _
  | false => exact body b (by omega) name none

/-- What follows the name of a member, with the members after it. -/
theorem Funded.member (ih : Funded mode n) (a : Nat) (paid : 32 * a + 1 ≤ n) (name : Token)
    (kind : TokenKind) :
    (do
      let member ← match kind with
        | .equal =>
          let _ ← Reading.next
          let value ← Expr.read n
          readTerminator mode .fieldEnd
          pure (.field ⟨name.name, value⟩)
        | .leftParen => Member.method <$> Stmt.readFunction mode name.name true n
        | _ => (Reading.fail .memberRest : Reading Member)
      let rest ← Stmt.readMembers mode n
      return member :: rest : PageReading (List Member)).Ample (· = kind) a := by
  have walks := Stmt.walks mode n
  have rest (b : Nat) (fewer : b ≤ a) (member : Member) :
      (do
        let rest ← Stmt.readMembers mode n
        return member :: rest : PageReading (List Member)).Ample Anywhere b :=
    (ih.readMembers b (by omega)).bind walks.readMembers fun _ => ample_pure _
  have failing : (do
      let member ← (liftM (Reading.fail .memberRest : Reading Member) : PageReading Member)
      let rest ← Stmt.readMembers mode n
      return member :: rest).Ample (· = kind) a :=
    Ample.bind (ample_fail (by decide)) (walks_lift (Reading.walks_fail _)) (rest a (Nat.le_refl a))
  cases kind
  case equal =>
    refine ample_next_bind (by decide) fun b some _ => ?_
    refine ample_expr_bind (by omega) fun c some value => ?_
    refine (ample_lift (Reading.ample_terminator (by decide))).bind ?_ fun _ => rest c (by omega) _
    exact walks_lift (Reading.forward.terminator mode _ (by decide))
  case leftParen =>
    have method : (Member.method <$> Stmt.readFunction mode name.name true n).Ample
        (· = .leftParen) a := by
      rw [map_eq_pure_bind]
      have function := (ih.readFunction a name.name true paid).mono (J := (· = .leftParen))
        fun _ _ => trivial
      exact function.bind (walks.readFunction _ _) fun _ => ample_pure _
    have walk : (Member.method <$> Stmt.readFunction mode name.name true n).Walks := by
      rw [map_eq_pure_bind]
      exact Walks.bind (walks.readFunction _ _) fun _ => forward.value _
    exact method.bind walk (rest a (Nat.le_refl a))
  all_goals exact failing

theorem Funded.readMembers_succ (ih : Funded mode n) (a : Nat) (paid : 32 * a + 1 ≤ n + 1) :
    (Stmt.readMembers mode (n + 1)).Ample Anywhere a := by
  unfold Stmt.readMembers
  refine ample_kind_bind fun kind => ?_
  cases kind
  case rightBrace => exact ample_next_bind (by decide) fun _ _ _ => ample_pure _
  case eof => exact ample_fail (by decide)
  all_goals
    refine ample_expect_bind (by decide) fun b some name => ample_kind_bind fun kind => ?_
    exact ih.member b (by omega) name kind

theorem funded (mode : Mode) (n : Nat) : Funded mode n := by
  induction n with
  | zero => exact funded_zero mode
  | succ n ih =>
    exact ⟨ih.read_succ, ih.readPlain_succ, ih.readBlock_succ, ih.readFunction_succ,
      ih.readClass_succ, ih.readMembers_succ⟩

end Stmt

/-! ## Programs -/

theorem ample_readProgram (mode : Mode) (n a : Nat) (paid : 32 * a + 16 ≤ n) :
    (readProgram mode n).Ample Anywhere a := by
  induction n generalizing a with
  | zero => omega
  | succ n ih =>
    unfold readProgram
    refine PageReading.ample_kind_bind fun kind => ?_
    split
    · exact PageReading.ample_pure _
    · next inner =>
      refine PageReading.ample_recovering_bind ((Stmt.funded mode n).read a (by omega))
        (by rintro _ rfl; exact inner) fun b some first => ?_
      have walks := PageReading.forward.readProgram (Reading.forward.terminator mode)
        (Nat.le_refl n)
      exact (ih b (by omega)).bind walks fun _ => PageReading.ample_pure _

/-- Only the bound on the nesting can keep a program from being read to the end. -/
theorem readProgram_stops (mode : Mode) (n : Nat) (page : Page) :
    (∀ p page', readProgram mode n page = .ok p page' → page'.stream.kind = .eof) ∧
    ∀ e page', readProgram mode n page = .error e page' → e.expected = .lessNesting := by
  induction n generalizing page with
  | zero =>
    refine ⟨fun p page' read => ?_, fun e page' failed => ?_⟩
    · cases read
    · cases failed
      rfl
  | succ n ih =>
    rw [readProgram, lift_kind_bind]
    split
    · next eof =>
      refine ⟨fun p page' read => ?_, fun e page' failed => by cases failed⟩
      cases read
      exact eof
    · refine ⟨fun p page' read => ?_, fun e page' failed => ?_⟩
      · obtain ⟨outcome, page₁, -, read⟩ := bind_eq_ok read
        obtain ⟨rest, page₂, second, read⟩ := bind_eq_ok read
        cases read
        exact (ih page₁).1 rest page' second
      · obtain failed | ⟨outcome, page₁, -, failed⟩ := bind_eq_error failed
        · exact absurd failed recovering_ne_error
        · obtain second | ⟨rest, page₂, -, failed⟩ := bind_eq_error failed
          · exact (ih page₁).2 e page' second
          · cases failed

/-- A program is read to the end of its tokens with every bound that is large enough, and always in
the same way. -/
theorem readProgram_ends (mode : Mode) {s : Stream} (ends : s.Ends) :
    ∃ statements page, page.stream.kind = .eof ∧ Shallow page.errors ∧
      ∀ n, s.nestingBound ≤ n → readProgram mode n ⟨s, []⟩ = .ok statements page := by
  have paid : 32 * s.ahead.length + 16 ≤ s.nestingBound := by
    unfold Stream.nestingBound
    omega
  have ample := ample_readProgram mode s.nestingBound s.ahead.length paid ⟨s, []⟩ ends trivial
    (Nat.le_refl _) (List.forall_mem_nil _)
  cases read : readProgram mode s.nestingBound ⟨s, []⟩ with
  | error e page =>
    have shallow := ample.2 e page read e (List.mem_append_right _ (List.mem_singleton_self e))
    exact absurd ((readProgram_stops mode _ _).2 e page read) shallow
  | ok statements page =>
    have shallow := ample.1 statements page read
    refine ⟨statements, page, (readProgram_stops mode _ _).1 _ page read, shallow, fun n le => ?_⟩
    -- the whole stream is a window of itself
    have whole : s.within [] [] = s := by simp [Stream.within]
    have mirrors := (PageReading.mirroring [] [] [] []).readProgram
      ((Reading.mirroring [] [] [] []).terminator mode) le
    obtain ⟨w, new, same, larger⟩ := mirrors.ok s [] statements page (whole.symm ▸ ends)
      (whole.symm ▸ read) shallow (Nat.zero_le _)
    have larger := larger []
    rw [whole] at larger
    rw [larger, same]

/-- **Reading ends, in bounds.** For every list of tokens and in both modes, the bound on the
nesting is large enough: reading reaches the end token, no problem comes from the bound, and a
larger one changes nothing. On the way the position is that of a token, never goes back and never
passes the first end token: this holds of every production, from wherever it starts and whatever it
ends with. An expression that was read has passed a token; a declaration before the end passes one
whether it was read or not. Skipping to a boundary stops, as the end belongs to every boundary; so
it does for every other set with the end in it. With any set it stops at the first token of the set,
behind as many tokens as it counts, or never. -/
theorem reading_ends_in_bounds (mode : Mode) (tokens : List Token) :
    let s := Stream.ofTokens tokens
    (∃ statements page, Program.ofTokens mode tokens = ⟨statements, page.errors⟩ ∧
      page.stream.kind = .eof ∧ Shallow page.errors ∧
      ∀ n, s.nestingBound ≤ n → readProgram mode n ⟨s, []⟩ = .ok statements page) ∧
    (∀ n, Expr.Lawful Reading.forward n n ∧ Stmt.Lawful PageReading.forward mode mode n n ∧
      (readProgram mode n).Walks) ∧
    (∀ s', s.Forward s' → s'.Ends ∧ s'.position < s.tokens.length ∧
      ∀ i t, i < s'.position → s.tokens[i]? = some t → t.kind ≠ .eof) ∧
    (∀ s' : Stream, s'.Ends →
      (∀ n e s'', Expr.read n s' = .ok e s'' → s'.position < s''.position) ∧
      (∀ n errors boundary, s'.kind ≠ .eof → ∃ outcome page',
        PageReading.recovering boundary (Stmt.read mode n) ⟨s', errors⟩ = .ok outcome page' ∧
          s'.position < page'.stream.position) ∧
      (∀ boundary : Boundary, ∃ skipped,
        s'.synchronize boundary.toKindSet = some (skipped, s'.toBoundary boundary)) ∧
      ∀ set : KindSet,
        (set.contains .eof = true → ∃ skipped found, s'.synchronize set = some (skipped, found)) ∧
        (∀ skipped found, s'.synchronize set = some (skipped, found) →
          s'.Skips set skipped found) ∧
        (s'.synchronize set = none → ∀ n, Stream.seek set n s' = none)) := by
  intro s
  have ends := Stream.ends_ofTokens tokens
  refine ⟨?_, fun n => ⟨?_, Stmt.walks mode n, ?_⟩, fun s' way => ⟨way.ends ends, way.valid, ?_⟩,
    fun s' ends' => ⟨fun n e s'' read => Expr.moved_of_read ends' read, ?_,
      Stream.synchronize_boundary ends', fun set => ⟨Stream.exists_synchronize ends', ?_, ?_⟩⟩⟩
  · obtain ⟨statements, page, eof, shallow, read⟩ := readProgram_ends mode ends
    refine ⟨statements, page, ?_, eof, shallow, read⟩
    rw [Program.ofTokens, Program.ofStream, read _ (Nat.le_refl _)]
  · exact Expr.lawful Reading.forward (Nat.le_refl n)
  · exact PageReading.forward.readProgram (Reading.forward.terminator mode) (Nat.le_refl n)
  · -- reading starts at the first token
    have start : s.position = 0 := congrArg List.length (passed_ofTokens tokens)
    exact fun i t early => way.inside i t (start ▸ Nat.zero_le i) early
  · exact fun n errors boundary here => Stmt.recovering_moves boundary ends' here
  · exact fun skipped found result => (Stream.synchronize_eq_some_iff.1 result).skips
  · exact fun nothing n => Stream.seek_eq_none nothing n

/-- Tokens that no text has: a number without its value, an end token in the middle, and none at the
end. -/
def strayTokens : List Token :=
  [⟨.kwWhile, "while", 1, none, ⟨0, 5⟩⟩, ⟨.leftParen, "(", 1, none, ⟨6, 7⟩⟩,
    ⟨.numberLiteral, "1", 1, none, ⟨7, 8⟩⟩, ⟨.kwVar, "var", 1, none, ⟨9, 12⟩⟩,
    ⟨.eof, "", 1, none, ⟨12, 12⟩⟩, ⟨.kwClass, "class", 1, none, ⟨13, 18⟩⟩]

/-- Reading them reports the number and the missing name, and goes no further than the first end.
The first declaration fails, but passes tokens. Behind its keyword a declaration is two tokens away,
and skipping to a token of no kind never stops. -/
theorem stray_tokens_end :
    (∃ statements page, Program.ofTokens .file strayTokens = ⟨statements, page.errors⟩ ∧
      page.errors.map (·.expected) = [.literalValue, .variableName] ∧
      page.stream.position = 4 ∧ page.stream.kind = .eof ∧
      readProgram .file 1000 ⟨Stream.ofTokens strayTokens, []⟩ = .ok statements page) ∧
    (∃ outcome page', PageReading.recovering .outside (Stmt.read .file 100)
      ⟨Stream.ofTokens strayTokens, []⟩ = .ok outcome page' ∧
        (Stream.ofTokens strayTokens).position < page'.stream.position) ∧
    ((Stream.ofTokens strayTokens).advance.synchronize .outside).map (·.1) = some 2 ∧
    ∀ n, Stream.seek (.ofList []) n (Stream.ofTokens strayTokens) = none := by
  obtain ⟨⟨statements, page, same, eof, -, read⟩, -, bounds, progress⟩ :=
    reading_ends_in_bounds .file strayTokens
  have found := read 1000 (by decide)
  have errors := congrArg (fun p : Program => p.errors.map (·.expected)) same
  have position : (readProgram .file 1000 >>= fun _ => (·.stream.position) <$> get).run'
      ⟨Stream.ofTokens strayTokens, []⟩ = some 4 := by decide +kernel
  rw [run'_bind_of_ok found] at position
  have here : (Stream.ofTokens strayTokens).kind ≠ .eof := by decide
  obtain ⟨-, declares, -, skips⟩ := progress _ (bounds _ (.refl _)).1
  exact ⟨⟨statements, page, same, errors.symm.trans (by decide +kernel),
    Option.some.inj position, eof, found⟩, declares 100 [] .outside here, by decide,
    (skips (.ofList [])).2.2 (by decide)⟩

end Scriptlet
