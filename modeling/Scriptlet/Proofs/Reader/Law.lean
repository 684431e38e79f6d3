import Scriptlet.Proofs.Sequence
import Scriptlet.Reader.Stmt

/-!
# Laws of reading

The reader is put together from few steps: it looks at the token under the position, moves past it,
fails there, and does one thing after the other; readers of declarations also recover. So what holds
of these steps and is kept by sequences holds of every production.

A law compares two readings (`Reading.Law`, `PageReading.Law`), so that a production can be compared
with itself under a larger bound on the nesting, in the other mode, or on another stream. A property
of one reading is a law that does not look at the second. The inductions over the grammar are made
here once, for all laws: `Expr.lawful`, `Stmt.lawful` and `PageReading.Law.readProgram`.
-/

namespace Scriptlet

/-! ## Steps on a page -/

section
variable {α : Type} {page page' : Page} {e : ReadError}

theorem lift_of_ok {r : Reading α} {s s' : Stream} {a : α} {errors : List ReadError}
    (h : r s = .ok a s') : (liftM r : PageReading α) ⟨s, errors⟩ = .ok a ⟨s', errors⟩ := by
  show Reading.onPage r ⟨s, errors⟩ = _
  unfold Reading.onPage
  rw [h]

theorem lift_of_error {r : Reading α} {s s' : Stream} {errors : List ReadError}
    (h : r s = .error e s') : (liftM r : PageReading α) ⟨s, errors⟩ = .error e ⟨s', errors⟩ := by
  show Reading.onPage r ⟨s, errors⟩ = _
  unfold Reading.onPage
  rw [h]

/-- Reading from the stream of a page leaves the problems alone. -/
theorem lift_eq_ok {r : Reading α} {a : α} (h : (liftM r : PageReading α) page = .ok a page') :
    ∃ s, r page.stream = .ok a s ∧ page' = { page with stream := s } := by
  obtain ⟨s, errors⟩ := page
  cases first : r s with
  | ok b s' =>
    rw [lift_of_ok first] at h
    cases h
    exact ⟨s', rfl, rfl⟩
  | error e s' =>
    rw [lift_of_error first] at h
    cases h

theorem lift_eq_error {r : Reading α} (h : (liftM r : PageReading α) page = .error e page') :
    ∃ s, r page.stream = .error e s ∧ page' = { page with stream := s } := by
  obtain ⟨s, errors⟩ := page
  cases first : r s with
  | ok a s' =>
    rw [lift_of_ok first] at h
    cases h
  | error e' s' =>
    rw [lift_of_error first] at h
    cases h
    exact ⟨s', rfl, rfl⟩

variable {r : PageReading α} {boundary : Boundary}

theorem recovering_of_ok {a : α} (h : r page = .ok a page') :
    PageReading.recovering boundary r page = .ok (some a) page' := by
  unfold PageReading.recovering
  rw [h]

theorem recovering_of_error (h : r page = .error e page') :
    PageReading.recovering boundary r page = .ok none (page'.recover page.stream boundary e) := by
  unfold PageReading.recovering
  rw [h]

/-- With recovery a declaration was read, or its problem is recorded and it is left out. -/
theorem recovering_eq_ok {o : Option α} (h : PageReading.recovering boundary r page = .ok o page') :
    (∃ a, o = some a ∧ r page = .ok a page') ∨ ∃ e page₁, o = none ∧ r page = .error e page₁ ∧
      page' = page₁.recover page.stream boundary e := by
  cases first : r page with
  | ok a page₁ =>
    rw [recovering_of_ok first] at h
    cases h
    exact .inl ⟨a, rfl, rfl⟩
  | error e page₁ =>
    rw [recovering_of_error first] at h
    cases h
    exact .inr ⟨e, page₁, rfl, rfl, rfl⟩

theorem recovering_ne_error : PageReading.recovering boundary r page ≠ .error e page' := by
  intro h
  cases first : r page with
  | ok a page₁ =>
    rw [recovering_of_ok first] at h
    cases h
  | error e page₁ =>
    rw [recovering_of_error first] at h
    cases h

end

/-! ## Expressions -/

/-- A literal that lacks its value. -/
def Token.Valueless (t : Token) : Prop :=
  (t.kind = .numberLiteral ∨ t.kind = .textLiteral) ∧ t.literal = none

/-- A relation between readings that holds of the steps of the reader and is kept by sequences. A
reading that gives up because it is nested too deeply is related to every other. A law may restrict
the tokens that are met, and only where one of them is a literal without its value does the reader
miss such a value. -/
structure Reading.Law where
  Holds : ∀ {α : Type}, Reading α → Reading α → Prop
  Meets : Token → Prop
  value : ∀ {α : Type} (a : α), Holds (pure a) (pure a)
  failure : ∀ {α : Type} (expected : Expectation),
    (expected = .literalValue → ∃ t, Meets t ∧ t.Valueless) →
      Holds (Reading.fail expected : Reading α) (Reading.fail expected)
  tooDeep : ∀ {α : Type} (r : Reading α), Holds (Reading.fail .lessNesting) r
  here : ∀ {α : Type} {k k' : Token → Reading α}, (∀ t, Meets t → Holds (k t) (k' t)) →
    Holds (Reading.here >>= k) (Reading.here >>= k')
  next : Holds Reading.next Reading.next
  sequence : ∀ {α β : Type} {r r' : Reading α} {k k' : α → Reading β}, Holds r r' →
    (∀ a, Holds (k a) (k' a)) → Holds (r >>= k) (r' >>= k')

namespace Reading.Law

variable (L : Reading.Law)

theorem kind : L.Holds Reading.kind Reading.kind := L.here fun t _ => L.value t.kind

/-- All other failures are unconditional. -/
theorem refusal {α : Type} (expected : Expectation) (plain : expected ≠ .literalValue) :
    L.Holds (Reading.fail expected : Reading α) (Reading.fail expected) :=
  L.failure expected fun missing => absurd missing plain

theorem expect_of {expected : Expectation} (kind : TokenKind)
    (fails : L.Holds (fail expected : Reading Token) (fail expected)) :
    L.Holds (Reading.expect kind expected) (Reading.expect kind expected) := by
  have eq : Reading.expect kind expected =
      (Reading.kind >>= fun found => if found = kind then Reading.next else fail expected) := by
    funext s
    show _ = (if s.kind = kind then Reading.next else fail expected) s
    rw [Reading.expect]
    split <;> rfl
  rw [eq]
  refine L.sequence L.kind fun found => ?_
  split
  · exact L.next
  · exact fails

theorem expect (kind : TokenKind) (expected : Expectation) (plain : expected ≠ .literalValue) :
    L.Holds (Reading.expect kind expected) (Reading.expect kind expected) :=
  L.expect_of kind (L.refusal expected plain)

theorem eat (kind : TokenKind) : L.Holds (Reading.eat kind) (Reading.eat kind) := by
  have eq : Reading.eat kind = (Reading.kind >>= fun found =>
      if found = kind then Reading.next >>= fun _ => pure true else pure false) := by
    funext s
    show _ = (if s.kind = kind then Reading.next >>= fun _ => pure true else pure false) s
    rw [Reading.eat]
    split <;> rfl
  rw [eq]
  refine L.sequence L.kind fun found => ?_
  split
  · exact L.sequence L.next fun _ => L.value true
  · exact L.value false

end Reading.Law

namespace Expr

/-- Every production keeps a law, for two bounds on the nesting. -/
structure Lawful (L : Reading.Law) (n n' : Nat) : Prop where
  read : L.Holds (Expr.read n) (Expr.read n')
  readLevel : ∀ level, L.Holds (Expr.readLevel n level) (Expr.readLevel n' level)
  readLevelRest : ∀ level left,
    L.Holds (Expr.readLevelRest n level left) (Expr.readLevelRest n' level left)
  readSigned : L.Holds (Expr.readSigned n) (Expr.readSigned n')
  readStepped : L.Holds (Expr.readStepped n) (Expr.readStepped n')
  readOperand : L.Holds (Expr.readOperand n) (Expr.readOperand n')
  readPrimary : L.Holds (Expr.readPrimary n) (Expr.readPrimary n')
  readElements : L.Holds (Expr.readElements n) (Expr.readElements n')
  readChain : ∀ target, L.Holds (Expr.readChain n target) (Expr.readChain n' target)
  readArguments : L.Holds (Expr.readArguments n) (Expr.readArguments n')
  readArgumentsRest : L.Holds (Expr.readArgumentsRest n) (Expr.readArgumentsRest n')

variable {L : Reading.Law} {n n' : Nat}

theorem lawful_zero : Lawful L 0 n' := by
  constructor <;> intros <;> exact L.tooDeep _

theorem Lawful.read_succ (ih : Lawful L n n') :
    L.Holds (Expr.read (n + 1)) (Expr.read (n' + 1)) := by
  unfold Expr.read
  refine L.sequence (ih.readLevel 0) fun condition => L.sequence (L.eat _) fun question => ?_
  split
  · refine L.sequence ih.read fun yes => L.sequence (L.expect _ _ (by decide)) fun _ => ?_
    exact L.sequence ih.read fun no => L.value _
  · exact L.value _

theorem Lawful.readLevel_succ (ih : Lawful L n n') (level : Nat) :
    L.Holds (Expr.readLevel (n + 1) level) (Expr.readLevel (n' + 1) level) := by
  unfold Expr.readLevel
  split
  · exact L.sequence (ih.readLevel (level + 1)) fun left => ih.readLevelRest level left
  · exact ih.readSigned

theorem Lawful.readLevelRest_succ (ih : Lawful L n n') (level : Nat) (left : Expr) :
    L.Holds (Expr.readLevelRest (n + 1) level left) (Expr.readLevelRest (n' + 1) level left) := by
  unfold Expr.readLevelRest
  refine L.sequence L.kind fun kind => ?_
  cases Infix.at? level kind with
  | none => exact L.value left
  | some op =>
    refine L.sequence L.next fun _ => L.sequence (ih.readLevel (level + 1)) fun right => ?_
    exact ih.readLevelRest level _

theorem Lawful.readSigned_succ (ih : Lawful L n n') :
    L.Holds (Expr.readSigned (n + 1)) (Expr.readSigned (n' + 1)) := by
  unfold Expr.readSigned
  refine L.sequence L.kind fun kind => ?_
  cases UnaryOp.ofToken? kind with
  | none => exact ih.readStepped
  | some op => exact L.sequence L.next fun _ => L.sequence ih.readSigned fun _ => L.value _

theorem Lawful.readStepped_succ (ih : Lawful L n n') :
    L.Holds (Expr.readStepped (n + 1)) (Expr.readStepped (n' + 1)) := by
  unfold Expr.readStepped
  refine L.sequence L.kind fun kind => ?_
  cases StepOp.ofToken? kind with
  | none => exact ih.readOperand
  | some op => exact L.sequence L.next fun _ => L.sequence ih.readOperand fun _ => L.value _

theorem Lawful.readOperand_succ (ih : Lawful L n n') :
    L.Holds (Expr.readOperand (n + 1)) (Expr.readOperand (n' + 1)) := by
  unfold Expr.readOperand
  refine L.sequence ih.readPrimary fun operand => L.sequence L.kind fun kind => ?_
  cases StepOp.ofToken? kind with
  | none => exact L.value operand
  | some op => exact L.sequence L.next fun _ => L.value _

theorem Lawful.readPrimary_succ (ih : Lawful L n n') :
    L.Holds (Expr.readPrimary (n + 1)) (Expr.readPrimary (n' + 1)) := by
  unfold Expr.readPrimary
  refine L.here fun first meets => ?_
  cases kind : first.kind
  case numberLiteral | textLiteral =>
    cases value : first.literal with
    | none => exact L.failure _ fun _ => ⟨first, meets, by simp [kind], value⟩
    | some value => exact L.sequence L.next fun _ => L.value _
  case kwTrue | kwFalse | kwNull => exact L.sequence L.next fun _ => L.value _
  case leftBracket =>
    exact L.sequence L.next fun _ => L.sequence ih.readElements fun _ => L.value _
  case leftParen =>
    refine L.sequence L.next fun _ => L.sequence ih.read fun inner => ?_
    exact L.sequence (L.expect _ _ (by decide)) fun close => L.value _
  case identifier => exact L.sequence L.next fun _ => ih.readChain _
  all_goals exact L.refusal _ (by decide)

/-- An element, its comma and the elements after it. -/
theorem Lawful.element (ih : Lawful L n n') : L.Holds
    (do
      let element ← Expr.read n
      let _ ← Reading.eat .comma
      let (rest, close) ← Expr.readElements n
      return (element :: rest, close))
    (do
      let element ← Expr.read n'
      let _ ← Reading.eat .comma
      let (rest, close) ← Expr.readElements n'
      return (element :: rest, close)) := by
  refine L.sequence ih.read fun element => L.sequence (L.eat _) fun _ => ?_
  exact L.sequence ih.readElements fun _ => L.value _

theorem Lawful.readElements_succ (ih : Lawful L n n') :
    L.Holds (Expr.readElements (n + 1)) (Expr.readElements (n' + 1)) := by
  unfold Expr.readElements
  refine L.sequence L.kind fun kind => ?_
  cases kind
  case rightBracket => exact L.sequence L.next fun _ => L.value _
  case eof => exact L.refusal _ (by decide)
  all_goals exact ih.element

/-- What may follow a chain that has no further link. -/
theorem Lawful.compound (ih : Lawful L n n') (target : Expr) (kind : TokenKind) : L.Holds
    (match BinaryOp.ofCompound? kind with
      | some op => do
        let _ ← Reading.next
        let value ← Expr.read n
        let combined := .binary (target.span.merge value.span) op target value
        return .assigned target combined
      | none => return target)
    (match BinaryOp.ofCompound? kind with
      | some op => do
        let _ ← Reading.next
        let value ← Expr.read n'
        let combined := .binary (target.span.merge value.span) op target value
        return .assigned target combined
      | none => return target) := by
  cases BinaryOp.ofCompound? kind with
  | none => exact L.value target
  | some op => exact L.sequence L.next fun _ => L.sequence ih.read fun value => L.value _

theorem Lawful.readChain_succ (ih : Lawful L n n') (target : Expr) :
    L.Holds (Expr.readChain (n + 1) target) (Expr.readChain (n' + 1) target) := by
  unfold Expr.readChain
  refine L.sequence L.kind fun kind => ?_
  have otherwise := ih.compound target kind
  cases kind
  case equal => exact L.sequence L.next fun _ => L.sequence ih.read fun value => L.value _
  case dot =>
    refine L.sequence L.next fun _ => L.sequence (L.expect _ _ (by decide)) fun field => ?_
    exact ih.readChain _
  case leftBracket =>
    refine L.sequence L.next fun _ => L.sequence ih.read fun position => ?_
    exact L.sequence (L.expect _ _ (by decide)) fun close => ih.readChain _
  case leftParen =>
    exact L.sequence L.next fun _ => L.sequence ih.readArguments fun _ => ih.readChain _
  all_goals exact otherwise

theorem Lawful.readArguments_succ (ih : Lawful L n n') :
    L.Holds (Expr.readArguments (n + 1)) (Expr.readArguments (n' + 1)) := by
  unfold Expr.readArguments
  refine L.sequence L.kind fun kind => ?_
  split
  · exact L.sequence L.next fun close => L.value _
  · exact ih.readArgumentsRest

theorem Lawful.readArgumentsRest_succ (ih : Lawful L n n') :
    L.Holds (Expr.readArgumentsRest (n + 1)) (Expr.readArgumentsRest (n' + 1)) := by
  unfold Expr.readArgumentsRest
  refine L.sequence ih.read fun arg => L.sequence (L.eat _) fun comma => ?_
  split
  · exact L.sequence ih.readArgumentsRest fun _ => L.value _
  · exact L.sequence (L.expect _ _ (by decide)) fun close => L.value _

/-- **Laws hold of all expressions.** The second reading may have the larger bound. -/
theorem lawful (L : Reading.Law) {n n' : Nat} (le : n ≤ n') : Lawful L n n' := by
  induction n generalizing n' with
  | zero => exact lawful_zero
  | succ n ih =>
    obtain ⟨n', rfl⟩ := Nat.exists_eq_add_one_of_ne_zero (Nat.ne_zero_of_lt le)
    have ih := ih (Nat.le_of_succ_le_succ le)
    exact ⟨ih.read_succ, ih.readLevel_succ, ih.readLevelRest_succ, ih.readSigned_succ,
      ih.readStepped_succ, ih.readOperand_succ, ih.readPrimary_succ, ih.readElements_succ,
      ih.readChain_succ, ih.readArguments_succ, ih.readArgumentsRest_succ⟩

end Expr

/-! ## Pieces of statements -/

namespace Reading.Law

variable (L : Reading.Law) {mode mode' : Mode} {n n' : Nat}

theorem terminator (mode : Mode) (expected : Expectation) (plain : expected ≠ .literalValue) :
    L.Holds (readTerminator mode expected) (readTerminator mode expected) := by
  unfold readTerminator
  refine L.sequence (L.eat _) fun semicolon => ?_
  split
  · exact L.value _
  · split
    · exact L.value _
    · exact L.refusal expected plain

theorem parametersRest (le : n ≤ n') :
    L.Holds (readParametersRest n) (readParametersRest n') := by
  induction n generalizing n' with
  | zero => exact L.tooDeep _
  | succ n ih =>
    obtain ⟨n', rfl⟩ := Nat.exists_eq_add_one_of_ne_zero (Nat.ne_zero_of_lt le)
    unfold readParametersRest
    refine L.sequence (L.expect _ _ (by decide)) fun param => L.sequence (L.eat _) fun comma => ?_
    split
    · exact L.sequence (ih (Nat.le_of_succ_le_succ le)) fun rest => L.value _
    · exact L.value _

theorem parameters (le : n ≤ n') : L.Holds (readParameters n) (readParameters n') := by
  have closed (params : List Name) : L.Holds
      (do
        let _ ← Reading.expect .rightParen .closedParameters
        return params)
      (do
        let _ ← Reading.expect .rightParen .closedParameters
        return params) :=
    L.sequence (L.expect _ _ (by decide)) fun _ => L.value params
  unfold readParameters
  refine L.sequence (L.expect _ _ (by decide)) fun _ => L.sequence L.kind fun kind => ?_
  split
  · exact L.sequence (L.value _) closed
  · exact L.sequence (L.parametersRest le) closed

theorem someExpr (le : n ≤ n') : L.Holds (some <$> Expr.read n) (some <$> Expr.read n') := by
  rw [map_eq_pure_bind, map_eq_pure_bind]
  exact L.sequence (Expr.lawful L le).read fun e => L.value _

variable (ends : ∀ expected, expected ≠ .literalValue →
  L.Holds (readTerminator mode expected) (readTerminator mode' expected))
include ends

theorem binding (constant : Bool) (le : n ≤ n') :
    L.Holds (readVariable mode constant n) (readVariable mode' constant n') := by
  unfold readVariable
  refine L.sequence (L.expect _ _ (by decide)) fun name => L.sequence (L.eat _) fun equal => ?_
  have ended (value : Option Expr) : L.Holds
      (if (constant && value.isNone) = true then fail .constantValue
        else do
          readTerminator mode .declarationEnd
          return Stmt.declare name.name value constant)
      (if (constant && value.isNone) = true then fail .constantValue
        else do
          readTerminator mode' .declarationEnd
          return Stmt.declare name.name value constant) := by
    split
    · exact L.refusal _ (by decide)
    · exact L.sequence (ends _ (by decide)) fun _ => L.value _
  split
  · exact L.sequence (L.someExpr le) ended
  · exact L.sequence (L.value none) ended

theorem returning (keyword : Span) (le : n ≤ n') :
    L.Holds (readReturn mode keyword n) (readReturn mode' keyword n') := by
  have ended (value : Option Expr) (span : Span) : L.Holds
      (do
        if (← Reading.kind) ≠ .eof then readTerminator mode .returnEnd
        return Stmt.ret span value)
      (do
        if (← Reading.kind) ≠ .eof then readTerminator mode' .returnEnd
        return Stmt.ret span value) := by
    refine L.sequence L.kind fun kind => ?_
    split
    · exact L.sequence (ends _ (by decide)) fun _ => L.value _
    · exact L.value _
  unfold readReturn
  refine L.sequence L.kind fun first => ?_
  split
  · exact L.sequence (L.value none) fun value => ended value _
  · exact L.sequence (L.someExpr le) fun value => ended value _

end Reading.Law

/-! ## Statements -/

/-- A relation between readings of declarations that goes with a law. -/
structure PageReading.Law (L : Reading.Law) where
  Holds : ∀ {α : Type}, PageReading α → PageReading α → Prop
  lift : ∀ {α : Type} {r r' : Reading α}, L.Holds r r' → Holds (liftM r) (liftM r')
  tooDeep : ∀ {α : Type} (r : PageReading α),
    Holds (liftM (Reading.fail .lessNesting : Reading α)) r
  sequence : ∀ {α β : Type} {r r' : PageReading α} {k k' : α → PageReading β}, Holds r r' →
    (∀ a, Holds (k a) (k' a)) → Holds (r >>= k) (r' >>= k')
  recovering : ∀ {α : Type} {r r' : PageReading α} (boundary : Boundary), Holds r r' →
    Holds (PageReading.recovering boundary r) (PageReading.recovering boundary r')

namespace PageReading.Law

variable {L : Reading.Law} (P : PageReading.Law L)

theorem value {α : Type} (a : α) : P.Holds (pure a) (pure a) := P.lift (L.value a)

theorem refusal {α : Type} (expected : Expectation) (plain : expected ≠ .literalValue) :
    P.Holds (liftM (Reading.fail expected : Reading α))
      (liftM (Reading.fail expected : Reading α)) :=
  P.lift (L.refusal expected plain)

theorem next : P.Holds (liftM Reading.next) (liftM Reading.next) := P.lift L.next

theorem kind : P.Holds (liftM Reading.kind) (liftM Reading.kind) := P.lift L.kind

theorem expect (kind : TokenKind) (expected : Expectation) (plain : expected ≠ .literalValue) :
    P.Holds (liftM (Reading.expect kind expected)) (liftM (Reading.expect kind expected)) :=
  P.lift (L.expect kind expected plain)

theorem eat (kind : TokenKind) : P.Holds (liftM (Reading.eat kind)) (liftM (Reading.eat kind)) :=
  P.lift (L.eat kind)

theorem expr {n n' : Nat} (le : n ≤ n') :
    P.Holds (liftM (Expr.read n)) (liftM (Expr.read n')) :=
  P.lift (Expr.lawful L le).read

end PageReading.Law

namespace Stmt

/-- Every production for statements keeps a law, for two modes and two bounds on the nesting. -/
structure Lawful {L : Reading.Law} (P : PageReading.Law L) (mode mode' : Mode) (n n' : Nat) :
    Prop where
  read : P.Holds (Stmt.read mode n) (Stmt.read mode' n')
  readPlain : P.Holds (Stmt.readPlain mode n) (Stmt.readPlain mode' n')
  readBlock : P.Holds (Stmt.readBlock mode n) (Stmt.readBlock mode' n')
  readFunction : ∀ name isMethod,
    P.Holds (Stmt.readFunction mode name isMethod n) (Stmt.readFunction mode' name isMethod n')
  readClass : P.Holds (Stmt.readClass mode n) (Stmt.readClass mode' n')
  readMembers : P.Holds (Stmt.readMembers mode n) (Stmt.readMembers mode' n')

variable {L : Reading.Law} {P : PageReading.Law L} {mode mode' : Mode} {n n' : Nat}

theorem lawful_zero : Lawful P mode mode' 0 n' := by
  constructor <;> intros <;> exact P.tooDeep _

section

variable (ends : ∀ expected, expected ≠ .literalValue →
    L.Holds (readTerminator mode expected) (readTerminator mode' expected))
  (ih : Lawful P mode mode' n n') (le : n ≤ n')

include ends ih le in
theorem Lawful.read_succ : P.Holds (Stmt.read mode (n + 1)) (Stmt.read mode' (n' + 1)) := by
  unfold Stmt.read
  refine P.sequence P.kind fun kind => ?_
  cases kind
  case kwVar | kwConst => exact P.sequence P.next fun _ => P.lift (L.binding ends _ le)
  case kwFunction =>
    refine P.sequence P.next fun _ => P.sequence (P.expect _ _ (by decide)) fun name => ?_
    exact P.sequence (ih.readFunction _ _) fun decl => P.value _
  case kwClass => exact P.sequence P.next fun _ => P.sequence ih.readClass fun decl => P.value _
  all_goals exact ih.readPlain

include ends ih le in
theorem Lawful.readPlain_succ :
    P.Holds (Stmt.readPlain mode (n + 1)) (Stmt.readPlain mode' (n' + 1)) := by
  unfold Stmt.readPlain
  refine P.sequence P.kind fun kind => ?_
  cases kind
  case leftBrace => exact P.sequence P.next fun _ => P.sequence ih.readBlock fun body => P.value _
  case kwIf =>
    refine P.sequence P.next fun _ => P.sequence (P.expect _ _ (by decide)) fun _ => ?_
    refine P.sequence (P.expr le) fun condition => P.sequence (P.expect _ _ (by decide)) fun _ => ?_
    refine P.sequence ih.readPlain fun yes => P.sequence (P.eat _) fun more => ?_
    split
    · exact P.sequence ih.readPlain fun no => P.value _
    · exact P.value _
  case kwWhile =>
    refine P.sequence P.next fun _ => P.sequence (P.expect _ _ (by decide)) fun _ => ?_
    refine P.sequence (P.expr le) fun condition => P.sequence (P.expect _ _ (by decide)) fun _ => ?_
    exact P.sequence ih.readPlain fun body => P.value _
  case kwReturn => exact P.sequence P.next fun keyword => P.lift (L.returning ends keyword.span le)
  all_goals
    refine P.sequence (P.expr le) fun e => ?_
    exact P.sequence (P.lift (ends _ (by decide))) fun _ => P.value _

/-- A declaration in a block and those after it. -/
theorem Lawful.blockItem (ih : Lawful P mode mode' n n') : P.Holds
    (do
      let first ← PageReading.recovering .inside (Stmt.read mode n)
      let rest ← Stmt.readBlock mode n
      return first.toList ++ rest)
    (do
      let first ← PageReading.recovering .inside (Stmt.read mode' n')
      let rest ← Stmt.readBlock mode' n'
      return first.toList ++ rest) := by
  refine P.sequence (P.recovering _ ih.read) fun first => ?_
  exact P.sequence ih.readBlock fun rest => P.value _

include ih in
theorem Lawful.readBlock_succ :
    P.Holds (Stmt.readBlock mode (n + 1)) (Stmt.readBlock mode' (n' + 1)) := by
  unfold Stmt.readBlock
  refine P.sequence P.kind fun kind => ?_
  cases kind
  case rightBrace => exact P.sequence P.next fun _ => P.value _
  case eof => exact P.refusal _ (by decide)
  all_goals exact ih.blockItem

include ih le in
theorem Lawful.readFunction_succ (name : Name) (isMethod : Bool) :
    P.Holds (Stmt.readFunction mode name isMethod (n + 1))
      (Stmt.readFunction mode' name isMethod (n' + 1)) := by
  unfold Stmt.readFunction
  refine P.sequence (P.lift (L.parameters le)) fun params => ?_
  exact P.sequence (P.expect _ _ (by decide)) fun _ => P.sequence ih.readBlock fun body => P.value _

include ih in
theorem Lawful.readClass_succ :
    P.Holds (Stmt.readClass mode (n + 1)) (Stmt.readClass mode' (n' + 1)) := by
  unfold Stmt.readClass
  have body (name : Token) (superclass : Option Name) : P.Holds
      (do
        let _ ← liftM (Reading.expect .leftBrace .openClass)
        let members ← Stmt.readMembers mode n
        return ClassDecl.ofMembers name.name superclass members)
      (do
        let _ ← liftM (Reading.expect .leftBrace .openClass)
        let members ← Stmt.readMembers mode' n'
        return ClassDecl.ofMembers name.name superclass members) :=
    P.sequence (P.expect _ _ (by decide)) fun _ =>
      P.sequence ih.readMembers fun members => P.value _
  refine P.sequence (P.expect _ _ (by decide)) fun name => P.sequence (P.eat _) fun isBelow => ?_
  cases isBelow with
  | true => exact P.sequence (P.expect _ _ (by decide)) fun token => body name (some token.name)
  | false => exact body name none

include ends ih le in
/-- What follows the name of a member, with the members after it. -/
theorem Lawful.member (name : Token) (kind : TokenKind) : P.Holds
    (do
      let member ← match kind with
        | .equal =>
          let _ ← Reading.next
          let value ← Expr.read n
          readTerminator mode .fieldEnd
          pure (.field ⟨name.name, value⟩)
        | .leftParen => Member.method <$> Stmt.readFunction mode name.name true n
        | _ => (Reading.fail .memberRest : Reading Member)
      let rest ← Stmt.readMembers mode n
      return member :: rest)
    (do
      let member ← match kind with
        | .equal =>
          let _ ← Reading.next
          let value ← Expr.read n'
          readTerminator mode' .fieldEnd
          pure (.field ⟨name.name, value⟩)
        | .leftParen => Member.method <$> Stmt.readFunction mode' name.name true n'
        | _ => (Reading.fail .memberRest : Reading Member)
      let rest ← Stmt.readMembers mode' n'
      return member :: rest) := by
  have rest (member : Member) : P.Holds
      (do
        let rest ← Stmt.readMembers mode n
        return member :: rest)
      (do
        let rest ← Stmt.readMembers mode' n'
        return member :: rest) :=
    P.sequence ih.readMembers fun rest => P.value _
  have method : P.Holds (Member.method <$> Stmt.readFunction mode name.name true n)
      (Member.method <$> Stmt.readFunction mode' name.name true n') := by
    rw [map_eq_pure_bind, map_eq_pure_bind]
    exact P.sequence (ih.readFunction name.name true) fun decl => P.value _
  cases kind
  case equal =>
    refine P.sequence P.next fun _ => P.sequence (P.expr le) fun value => ?_
    exact P.sequence (P.lift (ends _ (by decide))) fun _ => rest (.field ⟨name.name, value⟩)
  case leftParen => exact P.sequence method rest
  all_goals exact P.sequence (P.refusal _ (by decide)) rest

/-- A member and those after it. -/
theorem Lawful.memberItem {r r' : Token → TokenKind → PageReading (List Member)}
    (rest : ∀ name kind, P.Holds (r name kind) (r' name kind)) : P.Holds
    (do
      let name ← Reading.expect .identifier .memberName
      let kind ← Reading.kind
      r name kind)
    (do
      let name ← Reading.expect .identifier .memberName
      let kind ← Reading.kind
      r' name kind) :=
  P.sequence (P.expect _ _ (by decide)) fun name => P.sequence P.kind fun kind => rest name kind

include ends ih le in
theorem Lawful.readMembers_succ :
    P.Holds (Stmt.readMembers mode (n + 1)) (Stmt.readMembers mode' (n' + 1)) := by
  unfold Stmt.readMembers
  refine P.sequence P.kind fun kind => ?_
  cases kind
  case rightBrace => exact P.sequence P.next fun _ => P.value _
  case eof => exact P.refusal _ (by decide)
  all_goals exact Lawful.memberItem (ih.member ends le)

end

/-- **Laws hold of all statements**, in two modes if they hold of what ends statements in them. -/
theorem lawful (P : PageReading.Law L) (ends : ∀ expected, expected ≠ .literalValue →
      L.Holds (readTerminator mode expected) (readTerminator mode' expected))
    {n n' : Nat} (le : n ≤ n') : Lawful P mode mode' n n' := by
  induction n generalizing n' with
  | zero => exact lawful_zero
  | succ n ih =>
    obtain ⟨n', rfl⟩ := Nat.exists_eq_add_one_of_ne_zero (Nat.ne_zero_of_lt le)
    have le := Nat.le_of_succ_le_succ le
    have ih := ih le
    exact ⟨ih.read_succ ends le, ih.readPlain_succ ends le, ih.readBlock_succ,
      ih.readFunction_succ le, ih.readClass_succ, ih.readMembers_succ ends le⟩

end Stmt

/-- Laws hold of whole programs. -/
theorem PageReading.Law.readProgram {L : Reading.Law} (P : PageReading.Law L) {mode mode' : Mode}
    (ends : ∀ expected, expected ≠ .literalValue →
      L.Holds (readTerminator mode expected) (readTerminator mode' expected))
    {n n' : Nat} (le : n ≤ n') : P.Holds (readProgram mode n) (readProgram mode' n') := by
  induction n generalizing n' with
  | zero => exact P.tooDeep _
  | succ n ih =>
    obtain ⟨n', rfl⟩ := Nat.exists_eq_add_one_of_ne_zero (Nat.ne_zero_of_lt le)
    have le := Nat.le_of_succ_le_succ le
    unfold Scriptlet.readProgram
    refine P.sequence P.kind fun kind => ?_
    split
    · exact P.value _
    · refine P.sequence (P.recovering _ (Stmt.lawful P ends le).read) fun first => ?_
      exact P.sequence (ih le) fun rest => P.value _

end Scriptlet
