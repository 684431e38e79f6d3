import Scriptlet.Proofs.Sequence
import Scriptlet.Proofs.Shape

/-!
# Reading does not look at places

The reader copies spans and lines into trees and problems but never decides anything by them. So
reading tokens without their places gives the shape of what reading the tokens gives, with the same
problems in the same order (`Program.ofTokens_bare`).
-/

namespace Scriptlet

/-! ## Tokens and streams without places -/

/-- A token without its place. -/
def Token.bare (t : Token) : Token := { t with line := 1, span := .nowhere }

@[simp] theorem Token.bare_kind (t : Token) : t.bare.kind = t.kind := rfl

@[simp] theorem Token.bare_literal (t : Token) : t.bare.literal = t.literal := rfl

@[simp] theorem Token.bare_span (t : Token) : t.bare.span = .nowhere := rfl

@[simp] theorem Token.bare_name (t : Token) : t.bare.name = t.name.bare := rfl

/-- A problem without its place. -/
def ReadError.bare (e : ReadError) : ReadError := { e with line := 1, span := .nowhere }

namespace Stream

/-- A stream of tokens without places. -/
def bare (s : Stream) : Stream :=
  ⟨s.passed.map Token.bare, s.here.bare, s.ahead.map Token.bare⟩

@[simp] theorem bare_kind (s : Stream) : s.bare.kind = s.kind := rfl

@[simp] theorem bare_position (s : Stream) : s.bare.position = s.position := List.length_map _

@[simp] theorem bare_nestingBound (s : Stream) : s.bare.nestingBound = s.nestingBound := by
  simp [nestingBound, bare]

theorem bare_advance (s : Stream) : s.bare.advance = s.advance.bare := by
  obtain ⟨passed, here, ahead⟩ := s
  have atEnd : (Stream.mk passed here ahead).bare.atEnd = (Stream.mk passed here ahead).atEnd := rfl
  unfold advance
  rw [atEnd]
  split
  · rfl
  · cases ahead <;> rfl

theorem seek_bare (set : KindSet) (n : Nat) (s : Stream) :
    seek set n s.bare = (seek set n s).map fun (skipped, found) => (skipped, found.bare) := by
  induction n generalizing s with
  | zero =>
    unfold seek
    rw [bare_kind]
    split <;> rfl
  | succ n ih =>
    unfold seek
    rw [bare_kind]
    split
    · rfl
    · rw [bare_advance, ih, Option.map_map, Option.map_map]
      rfl

theorem bare_toBoundary (s : Stream) (boundary : Boundary) :
    s.bare.toBoundary boundary = (s.toBoundary boundary).bare := by
  have ahead : s.bare.ahead.length = s.ahead.length := List.length_map _
  unfold toBoundary synchronize
  rw [ahead, seek_bare]
  cases seek boundary.toKindSet s.ahead.length s with
  | none => rfl
  | some result => rfl

theorem withEnd_bare (tokens : List Token) :
    withEnd (tokens.map Token.bare) = (withEnd tokens).map Token.bare := by
  unfold withEnd
  rw [List.getLast?_map]
  cases tokens.getLast? with
  | none => rfl
  | some t =>
    by_cases eof : t.kind = .eof
    · simp [eof]
    · simp [eof, missingEnd, Token.ending, Token.bare, Span.point, Span.nowhere]

theorem ofTokens_bare (tokens : List Token) :
    ofTokens (tokens.map Token.bare) = (ofTokens tokens).bare := by
  have visible : (tokens.map Token.bare).filter (!·.kind.isTrivia) =
      (tokens.filter (!·.kind.isTrivia)).map Token.bare := List.filter_map
  unfold ofTokens
  rw [visible, withEnd_bare]
  cases withEnd (tokens.filter (!·.kind.isTrivia)) <;> rfl

end Stream

/-! ## Expressions -/

/-- Streams and problems without places. -/
def Reading.places : View ReadError Stream := ⟨Stream.bare, ReadError.bare⟩

namespace Reading

variable {α β : Type}

theorem commutes_here : places.Commutes Token.bare here here := fun _ => rfl

theorem commutes_kind : places.Commutes id kind kind := fun _ => rfl

theorem commutes_next : places.Commutes Token.bare next next := by
  intro s
  show EStateM.Result.ok s.bare.here s.bare.advance = _
  rw [Stream.bare_advance]
  rfl

theorem commutes_fail (f : α → β) (expected : Expectation) :
    places.Commutes f (fail expected) (fail expected) := fun _ => rfl

theorem commutes_expect (kind : TokenKind) (expected : Expectation) :
    places.Commutes Token.bare (expect kind expected) (expect kind expected) := by
  intro s
  show expect kind expected s.bare = _
  unfold expect
  rw [Stream.bare_kind]
  split
  · exact commutes_next s
  · rfl

theorem commutes_eat (kind : TokenKind) : places.Commutes id (eat kind) (eat kind) := by
  intro s
  show eat kind s.bare = _
  unfold eat
  rw [Stream.bare_kind, Stream.bare_advance]
  split <;> rfl

end Reading

namespace Expr

open Reading View

theorem bare_infixed (op : Infix) (left right : Expr) :
    (infixed op left right).bare = infixed op left.bare right.bare := by
  cases op <;> simp [infixed, bare]

theorem bare_assigned (target value : Expr) :
    (assigned target value).bare = assigned target.bare value.bare := by
  simp [assigned, bare]

/-- Expressions and the span of what closes them, without places. -/
def bareClosed (r : List Expr × Span) : List Expr × Span := (bareAll r.1, .nowhere)

/-- No production looks at places with a bound on the nesting. -/
structure Blind (n : Nat) : Prop where
  read : places.Commutes bare (Expr.read n) (Expr.read n)
  readLevel : ∀ k, places.Commutes bare (Expr.readLevel n k) (Expr.readLevel n k)
  readLevelRest : ∀ k left,
    places.Commutes bare (Expr.readLevelRest n k left) (Expr.readLevelRest n k left.bare)
  readSigned : places.Commutes bare (Expr.readSigned n) (Expr.readSigned n)
  readStepped : places.Commutes bare (Expr.readStepped n) (Expr.readStepped n)
  readOperand : places.Commutes bare (Expr.readOperand n) (Expr.readOperand n)
  readPrimary : places.Commutes bare (Expr.readPrimary n) (Expr.readPrimary n)
  readElements : places.Commutes bareClosed (Expr.readElements n) (Expr.readElements n)
  readChain : ∀ target, places.Commutes bare (Expr.readChain n target) (Expr.readChain n target.bare)
  readArguments : places.Commutes bareClosed (Expr.readArguments n) (Expr.readArguments n)
  readArgumentsRest :
    places.Commutes bareClosed (Expr.readArgumentsRest n) (Expr.readArgumentsRest n)

theorem blind_zero : Blind 0 := by
  constructor <;> intros <;> exact commutes_fail _ _

variable {n : Nat}

theorem Blind.read_succ (ih : Blind n) :
    places.Commutes bare (Expr.read (n + 1)) (Expr.read (n + 1)) := by
  unfold Expr.read
  refine (ih.readLevel 0).bind fun condition => (commutes_eat _).bind fun found => ?_
  cases found with
  | false => exact commutes_pure rfl
  | true =>
    refine ih.read.bind fun yes => (commutes_expect _ _).bind fun _ => ih.read.bind fun no => ?_
    exact commutes_pure (by simp [bare])

theorem Blind.readLevel_succ (ih : Blind n) (k : Nat) :
    places.Commutes bare (Expr.readLevel (n + 1) k) (Expr.readLevel (n + 1) k) := by
  unfold Expr.readLevel
  split
  · exact (ih.readLevel (k + 1)).bind fun left => ih.readLevelRest k left
  · exact ih.readSigned

theorem Blind.readLevelRest_succ (ih : Blind n) (k : Nat) (left : Expr) :
    places.Commutes bare (Expr.readLevelRest (n + 1) k left)
      (Expr.readLevelRest (n + 1) k left.bare) := by
  unfold Expr.readLevelRest
  refine commutes_kind.bind fun kind => ?_
  cases h : Infix.at? k kind with
  | none =>
    simp only [id, h]
    exact commutes_pure rfl
  | some op =>
    simp only [id, h]
    refine commutes_next.bind fun _ => (ih.readLevel (k + 1)).bind fun right => ?_
    rw [← bare_infixed]
    exact ih.readLevelRest k _

theorem Blind.readSigned_succ (ih : Blind n) :
    places.Commutes bare (Expr.readSigned (n + 1)) (Expr.readSigned (n + 1)) := by
  unfold Expr.readSigned
  refine commutes_kind.bind fun kind => ?_
  cases h : UnaryOp.ofToken? kind with
  | none =>
    simp only [id, h]
    exact ih.readStepped
  | some op =>
    simp only [id, h]
    refine commutes_next.bind fun sign => ih.readSigned.bind fun operand => ?_
    exact commutes_pure (by simp [bare])

theorem Blind.readStepped_succ (ih : Blind n) :
    places.Commutes bare (Expr.readStepped (n + 1)) (Expr.readStepped (n + 1)) := by
  unfold Expr.readStepped
  refine commutes_kind.bind fun kind => ?_
  cases h : StepOp.ofToken? kind with
  | none =>
    simp only [id, h]
    exact ih.readOperand
  | some op =>
    simp only [id, h]
    refine commutes_next.bind fun step => ih.readOperand.bind fun operand => ?_
    exact commutes_pure (by simp [bare])

theorem Blind.readOperand_succ (ih : Blind n) :
    places.Commutes bare (Expr.readOperand (n + 1)) (Expr.readOperand (n + 1)) := by
  unfold Expr.readOperand
  refine ih.readPrimary.bind fun operand => commutes_kind.bind fun kind => ?_
  cases h : StepOp.ofToken? kind with
  | none =>
    simp only [id, h]
    exact commutes_pure rfl
  | some op =>
    simp only [id, h]
    exact commutes_next.bind fun step => commutes_pure (by simp [bare])

/-- A literal token with its value. -/
theorem commutes_literal (t : Token) :
    places.Commutes bare
      (match t.literal with
        | some value => do
          let _ ← next
          return literal t.span value.constant
        | none => fail .literalValue)
      (match t.bare.literal with
        | some value => do
          let _ ← next
          return literal t.bare.span value.constant
        | none => fail .literalValue) := by
  rw [Token.bare_literal]
  cases t.literal with
  | none => exact commutes_fail _ _
  | some value => exact commutes_next.bind fun _ => commutes_pure rfl

theorem Blind.readPrimary_succ (ih : Blind n) :
    places.Commutes bare (Expr.readPrimary (n + 1)) (Expr.readPrimary (n + 1)) := by
  unfold Expr.readPrimary
  refine commutes_here.bind fun first => ?_
  rw [Token.bare_kind]
  cases first.kind
  case numberLiteral | textLiteral => exact commutes_literal first
  case kwTrue | kwFalse | kwNull => exact commutes_next.bind fun _ => commutes_pure rfl
  case leftBracket =>
    refine commutes_next.bind fun _ => ih.readElements.bind fun closed => ?_
    exact commutes_pure (by simp [bare])
  case leftParen =>
    refine commutes_next.bind fun _ => ih.read.bind fun inner => ?_
    exact (commutes_expect _ _).bind fun close => commutes_pure (by simp [bare])
  case identifier => exact commutes_next.bind fun _ => ih.readChain _
  all_goals exact commutes_fail _ _

/-- An element, its comma and the elements after it. -/
theorem Blind.commutes_element (ih : Blind n) : places.Commutes bareClosed
    (do
      let element ← Expr.read n
      let _ ← eat .comma
      let (rest, close) ← Expr.readElements n
      return (element :: rest, close))
    (do
      let element ← Expr.read n
      let _ ← eat .comma
      let (rest, close) ← Expr.readElements n
      return (element :: rest, close)) := by
  refine ih.read.bind fun element => (commutes_eat _).bind fun _ => ?_
  exact ih.readElements.bind fun rest => commutes_pure rfl

theorem Blind.readElements_succ (ih : Blind n) :
    places.Commutes bareClosed (Expr.readElements (n + 1)) (Expr.readElements (n + 1)) := by
  unfold Expr.readElements
  refine commutes_kind.bind fun kind => ?_
  cases kind
  case rightBracket => exact commutes_next.bind fun close => commutes_pure rfl
  case eof => exact commutes_fail _ _
  all_goals exact ih.commutes_element

/-- What may follow a chain that has no further link. -/
theorem Blind.commutes_compound (ih : Blind n) (target : Expr) (kind : TokenKind) :
    places.Commutes bare
      (match BinaryOp.ofCompound? kind with
        | some op => do
          let _ ← next
          let value ← Expr.read n
          let combined := .binary (target.span.merge value.span) op target value
          return .assigned target combined
        | none => return target)
      (match BinaryOp.ofCompound? kind with
        | some op => do
          let _ ← next
          let value ← Expr.read n
          let combined := .binary (target.bare.span.merge value.span) op target.bare value
          return .assigned target.bare combined
        | none => return target.bare) := by
  cases BinaryOp.ofCompound? kind with
  | none => exact commutes_pure rfl
  | some op =>
    refine commutes_next.bind fun _ => ih.read.bind fun value => ?_
    exact commutes_pure (by simp [bare_assigned, bare])

theorem Blind.readChain_succ (ih : Blind n) (target : Expr) :
    places.Commutes bare (Expr.readChain (n + 1) target) (Expr.readChain (n + 1) target.bare) := by
  unfold Expr.readChain
  refine commutes_kind.bind fun kind => ?_
  have compound := ih.commutes_compound target kind
  cases kind
  case equal =>
    refine commutes_next.bind fun _ => ih.read.bind fun value => ?_
    exact commutes_pure (bare_assigned target value).symm
  case dot =>
    refine commutes_next.bind fun _ => (commutes_expect _ _).bind fun field => ?_
    simpa [bare] using ih.readChain (.field (target.span.merge field.span) target field.name)
  case leftBracket =>
    refine commutes_next.bind fun _ => ih.read.bind fun position => ?_
    refine (commutes_expect _ _).bind fun close => ?_
    simpa [bare] using ih.readChain (.index (target.span.merge close.span) target position)
  case leftParen =>
    refine commutes_next.bind fun _ => ih.readArguments.bind fun closed => ?_
    simpa [bare, bareClosed] using
      ih.readChain (.call (target.span.merge closed.2) target closed.1)
  all_goals exact compound

theorem Blind.readArguments_succ (ih : Blind n) :
    places.Commutes bareClosed (Expr.readArguments (n + 1)) (Expr.readArguments (n + 1)) := by
  unfold Expr.readArguments
  refine commutes_kind.bind fun kind => ?_
  rw [id]
  split
  · exact commutes_next.bind fun close => commutes_pure rfl
  · exact ih.readArgumentsRest

theorem Blind.readArgumentsRest_succ (ih : Blind n) :
    places.Commutes bareClosed (Expr.readArgumentsRest (n + 1))
      (Expr.readArgumentsRest (n + 1)) := by
  unfold Expr.readArgumentsRest
  refine ih.read.bind fun arg => (commutes_eat _).bind fun more => ?_
  cases more with
  | true => exact ih.readArgumentsRest.bind fun rest => commutes_pure rfl
  | false => exact (commutes_expect _ _).bind fun close => commutes_pure rfl

theorem blind (n : Nat) : Blind n := by
  induction n with
  | zero => exact blind_zero
  | succ n ih =>
    exact ⟨ih.read_succ, ih.readLevel_succ, ih.readLevelRest_succ, ih.readSigned_succ,
      ih.readStepped_succ, ih.readOperand_succ, ih.readPrimary_succ, ih.readElements_succ,
      ih.readChain_succ, ih.readArguments_succ, ih.readArgumentsRest_succ⟩

end Expr

/-! ## Statements -/

/-- A page without places. -/
def Page.bare (page : Page) : Page := ⟨page.stream.bare, page.errors.map ReadError.bare⟩

/-- Pages and problems without places. -/
def PageReading.places : View ReadError Page := ⟨Page.bare, ReadError.bare⟩

namespace PageReading

variable {α β : Type}

theorem commutes_lift {f : α → β} {r : Reading α} {r' : Reading β}
    (h : Reading.places.Commutes f r r') :
    places.Commutes f (liftM r : PageReading α) (liftM r' : PageReading β) := by
  intro page
  show Reading.onPage r' page.bare = places.outcome f (Reading.onPage r page)
  have h := h page.stream
  unfold Reading.onPage
  rw [show page.bare.stream = Reading.places.state page.stream from rfl, h]
  cases r page.stream <;> rfl

theorem recover_bare (start : Stream) (boundary : Boundary) (e : ReadError) (page : Page) :
    page.bare.recover start.bare boundary e.bare = (page.recover start boundary e).bare := by
  have moved : (if page.bare.stream.position = start.bare.position then page.bare.stream.advance
      else page.bare.stream) =
      (if page.stream.position = start.position then page.stream.advance else page.stream).bare := by
    rw [Page.bare, Stream.bare_position, Stream.bare_position, Stream.bare_advance]
    split <;> rfl
  simp only [Page.recover, moved, Stream.bare_toBoundary]
  simp [Page.bare]

theorem commutes_recovering {f : α → α} {r r' : PageReading α} (h : places.Commutes f r r')
    (boundary : Boundary) :
    places.Commutes (Option.map f) (recovering boundary r) (recovering boundary r') := by
  intro page
  show recovering boundary r' page.bare = places.outcome (Option.map f) (recovering boundary r page)
  have h := h page
  unfold recovering
  rw [show page.bare = places.state page from rfl, h]
  cases r page with
  | ok a next => rfl
  | error e next =>
    exact congrArg (EStateM.Result.ok none) (recover_bare page.stream boundary e next)

theorem commutes_fail (f : α → β) (expected : Expectation) :
    places.Commutes f (liftM (Reading.fail expected : Reading α) : PageReading α)
      (liftM (Reading.fail expected : Reading β) : PageReading β) :=
  commutes_lift (Reading.commutes_fail f expected)

theorem commutes_kind : places.Commutes id (liftM Reading.kind : PageReading TokenKind)
    (liftM Reading.kind : PageReading TokenKind) :=
  commutes_lift Reading.commutes_kind

theorem commutes_next : places.Commutes Token.bare (liftM Reading.next : PageReading Token)
    (liftM Reading.next : PageReading Token) :=
  commutes_lift Reading.commutes_next

theorem commutes_expect (kind : TokenKind) (expected : Expectation) :
    places.Commutes Token.bare (liftM (Reading.expect kind expected) : PageReading Token)
      (liftM (Reading.expect kind expected) : PageReading Token) :=
  commutes_lift (Reading.commutes_expect kind expected)

theorem commutes_eat (kind : TokenKind) :
    places.Commutes id (liftM (Reading.eat kind) : PageReading Bool)
      (liftM (Reading.eat kind) : PageReading Bool) :=
  commutes_lift (Reading.commutes_eat kind)

theorem commutes_expr (n : Nat) : places.Commutes Expr.bare (liftM (Expr.read n) : PageReading Expr)
    (liftM (Expr.read n) : PageReading Expr) :=
  commutes_lift (Expr.blind n).read

end PageReading

section

open Reading View

theorem commutes_terminator (mode : Mode) (expected : Expectation) :
    places.Commutes id (readTerminator mode expected) (readTerminator mode expected) := by
  unfold readTerminator
  refine (commutes_eat _).bind fun found => ?_
  cases found with
  | true => exact commutes_pure rfl
  | false =>
    simp only [id]
    split
    · exact commutes_pure rfl
    · split
      · exact commutes_pure rfl
      · exact commutes_fail _ _

theorem commutes_parametersRest (n : Nat) :
    places.Commutes (List.map Name.bare) (readParametersRest n) (readParametersRest n) := by
  induction n with
  | zero => exact commutes_fail _ _
  | succ n ih =>
    unfold readParametersRest
    refine (commutes_expect _ _).bind fun param => (commutes_eat _).bind fun more => ?_
    cases more with
    | true => exact ih.bind fun rest => commutes_pure rfl
    | false => exact commutes_pure rfl

theorem commutes_parameters (n : Nat) :
    places.Commutes (List.map Name.bare) (readParameters n) (readParameters n) := by
  unfold readParameters
  refine (commutes_expect _ _).bind fun _ => commutes_kind.bind fun kind => ?_
  have closing (params : List Name) : places.Commutes (List.map Name.bare)
      (do
        let _ ← expect .rightParen .closedParameters
        return params)
      (do
        let _ ← expect .rightParen .closedParameters
        return params.map Name.bare) :=
    (commutes_expect _ _).bind fun _ => commutes_pure rfl
  rw [id]
  split
  · exact View.Commutes.bind (commutes_pure rfl) closing
  · exact (commutes_parametersRest n).bind closing

/-- A value after a token that says that there is one. -/
theorem commutes_someExpr (n : Nat) :
    places.Commutes (Option.map Expr.bare) (some <$> Expr.read n) (some <$> Expr.read n) :=
  (Expr.blind n).read.map fun _ => rfl

theorem commutes_variable (mode : Mode) (constant : Bool) (n : Nat) :
    places.Commutes Stmt.bare (readVariable mode constant n) (readVariable mode constant n) := by
  unfold readVariable
  refine (commutes_expect _ _).bind fun name => (commutes_eat _).bind fun isSet => ?_
  have ending (value : Option Expr) : places.Commutes Stmt.bare
      (if (constant && value.isNone) = true then fail .constantValue
        else do
          readTerminator mode .declarationEnd
          return .declare name.name value constant)
      (if (constant && (value.map Expr.bare).isNone) = true then fail .constantValue
        else do
          readTerminator mode .declarationEnd
          return .declare name.bare.name (value.map Expr.bare) constant) := by
    rw [Option.isNone_map]
    split
    · exact commutes_fail _ _
    · exact (commutes_terminator mode _).bind fun _ => commutes_pure rfl
  cases isSet with
  | true => exact (commutes_someExpr n).bind ending
  | false => exact View.Commutes.bind (commutes_pure rfl) ending

/-- The end of a return, which may be missing at the end of the tokens. -/
theorem commutes_returnEnd (mode : Mode) {st st' : Stmt} (same : st' = st.bare) :
    places.Commutes Stmt.bare
      (do
        if (← kind) ≠ .eof then readTerminator mode .returnEnd
        return st)
      (do
        if (← kind) ≠ .eof then readTerminator mode .returnEnd
        return st') := by
  refine commutes_kind.bind fun kind => ?_
  simp only [id]
  split
  · exact (commutes_terminator mode _).bind fun _ => commutes_pure same
  · exact commutes_pure same

theorem commutes_return (mode : Mode) (keyword : Span) (n : Nat) :
    places.Commutes Stmt.bare (readReturn mode keyword n) (readReturn mode .nowhere n) := by
  unfold readReturn
  refine commutes_kind.bind fun first => ?_
  simp only [id]
  split
  · exact commutes_returnEnd mode rfl
  · refine (commutes_someExpr n).bind fun value => ?_
    cases value with
    | none => exact commutes_returnEnd mode rfl
    | some e => exact commutes_returnEnd mode (by simp [Stmt.bare])

end

namespace Stmt

open PageReading View

/-- No production of statements looks at places with a bound on the nesting. -/
structure Blind (mode : Mode) (n : Nat) : Prop where
  read : places.Commutes bare (Stmt.read mode n) (Stmt.read mode n)
  readPlain : places.Commutes bare (Stmt.readPlain mode n) (Stmt.readPlain mode n)
  readBlock : places.Commutes (List.map bare) (Stmt.readBlock mode n) (Stmt.readBlock mode n)
  readFunction : ∀ name isMethod, places.Commutes bareFunction
    (Stmt.readFunction mode name isMethod n) (Stmt.readFunction mode name.bare isMethod n)
  readClass : places.Commutes bareClass (Stmt.readClass mode n) (Stmt.readClass mode n)
  readMembers :
    places.Commutes (List.map Member.bare) (Stmt.readMembers mode n) (Stmt.readMembers mode n)

theorem blind_zero (mode : Mode) : Blind mode 0 := by
  constructor <;> intros <;> exact commutes_fail _ _

variable {mode : Mode} {n : Nat}

theorem Blind.read_succ (ih : Blind mode n) :
    places.Commutes bare (Stmt.read mode (n + 1)) (Stmt.read mode (n + 1)) := by
  unfold Stmt.read
  refine commutes_kind.bind fun kind => ?_
  cases kind
  case kwVar | kwConst =>
    exact commutes_next.bind fun _ => commutes_lift (commutes_variable mode _ n)
  case kwFunction =>
    refine commutes_next.bind fun _ => (commutes_expect _ _).bind fun name => ?_
    exact (ih.readFunction name.name false).bind fun decl => commutes_pure rfl
  case kwClass =>
    exact commutes_next.bind fun _ => ih.readClass.bind fun decl => commutes_pure rfl
  all_goals exact ih.readPlain

theorem Blind.readPlain_succ (ih : Blind mode n) :
    places.Commutes bare (Stmt.readPlain mode (n + 1)) (Stmt.readPlain mode (n + 1)) := by
  unfold Stmt.readPlain
  refine commutes_kind.bind fun kind => ?_
  cases kind
  case leftBrace =>
    refine commutes_next.bind fun _ => ih.readBlock.bind fun body => ?_
    exact commutes_pure (by rw [bare, bareAll_eq_map])
  case kwIf =>
    refine commutes_next.bind fun _ => (commutes_expect _ _).bind fun _ => ?_
    refine (commutes_expr n).bind fun condition => (commutes_expect _ _).bind fun _ => ?_
    refine ih.readPlain.bind fun yes => (commutes_eat _).bind fun found => ?_
    cases found with
    | true => exact ih.readPlain.bind fun no => commutes_pure rfl
    | false => exact commutes_pure rfl
  case kwWhile =>
    refine commutes_next.bind fun _ => (commutes_expect _ _).bind fun _ => ?_
    refine (commutes_expr n).bind fun condition => (commutes_expect _ _).bind fun _ => ?_
    exact ih.readPlain.bind fun body => commutes_pure rfl
  case kwReturn =>
    exact commutes_next.bind fun keyword => commutes_lift (commutes_return mode keyword.span n)
  all_goals
    refine (commutes_expr n).bind fun e => ?_
    exact (commutes_lift (commutes_terminator mode _)).bind fun _ => commutes_pure rfl

theorem Blind.readBlock_succ (ih : Blind mode n) :
    places.Commutes (List.map bare) (Stmt.readBlock mode (n + 1))
      (Stmt.readBlock mode (n + 1)) := by
  unfold Stmt.readBlock
  refine commutes_kind.bind fun kind => ?_
  cases kind
  case rightBrace => exact commutes_next.bind fun _ => commutes_pure rfl
  case eof => exact commutes_fail _ _
  all_goals
    refine (commutes_recovering ih.read _).bind fun first => ih.readBlock.bind fun rest => ?_
    exact commutes_pure (by cases first <;> rfl)

theorem Blind.readFunction_succ (ih : Blind mode n) (name : Name) (isMethod : Bool) :
    places.Commutes bareFunction (Stmt.readFunction mode name isMethod (n + 1))
      (Stmt.readFunction mode name.bare isMethod (n + 1)) := by
  unfold Stmt.readFunction
  refine (commutes_lift (commutes_parameters n)).bind fun params => ?_
  refine (commutes_expect _ _).bind fun _ => ih.readBlock.bind fun body => ?_
  exact commutes_pure (by rw [bareFunction, bareAll_eq_map])

theorem Blind.readClass_succ (ih : Blind mode n) :
    places.Commutes bareClass (Stmt.readClass mode (n + 1)) (Stmt.readClass mode (n + 1)) := by
  unfold Stmt.readClass
  refine (commutes_expect _ _).bind fun name => (commutes_eat _).bind fun isBelow => ?_
  have body (superclass : Option Name) : places.Commutes bareClass
      (do
        let _ ← liftM (Reading.expect .leftBrace .openClass)
        let members ← Stmt.readMembers mode n
        return .ofMembers name.name superclass members)
      (do
        let _ ← liftM (Reading.expect .leftBrace .openClass)
        let members ← Stmt.readMembers mode n
        return .ofMembers name.bare.name (superclass.map Name.bare) members) := by
    refine (commutes_expect _ _).bind fun _ => ih.readMembers.bind fun members => ?_
    exact commutes_pure (bareClass_ofMembers name.name superclass members).symm
  cases isBelow with
  | true =>
    refine (commutes_expect _ _).bind fun token => ?_
    exact body (some token.name)
  | false => exact body none

/-- What follows the name of a member, with the members after it. -/
theorem Blind.commutes_member (ih : Blind mode n) (name : Token) (kind : TokenKind) :
    places.Commutes (List.map Member.bare)
      (do
        let member ← match kind with
          | .equal =>
            let _ ← Reading.next
            let value ← Expr.read n
            readTerminator mode .fieldEnd
            pure (.field ⟨name.name, value⟩)
          | .leftParen => Member.method <$> Stmt.readFunction mode name.name true n
          | _ => (Reading.fail .memberRest : Reading Member)
        let rest ← Stmt.readMembers mode n
        return member :: rest)
      (do
        let member ← match kind with
          | .equal =>
            let _ ← Reading.next
            let value ← Expr.read n
            readTerminator mode .fieldEnd
            pure (.field ⟨name.bare.name, value⟩)
          | .leftParen => Member.method <$> Stmt.readFunction mode name.bare.name true n
          | _ => (Reading.fail .memberRest : Reading Member)
        let rest ← Stmt.readMembers mode n
        return member :: rest) := by
  have rest (member : Member) : places.Commutes (List.map Member.bare)
      (do
        let rest ← Stmt.readMembers mode n
        return member :: rest)
      (do
        let rest ← Stmt.readMembers mode n
        return member.bare :: rest) :=
    ih.readMembers.bind fun rest => commutes_pure rfl
  have method : places.Commutes Member.bare
      (Member.method <$> Stmt.readFunction mode name.name true n)
      (Member.method <$> Stmt.readFunction mode name.bare.name true n) :=
    (ih.readFunction name.name true).map fun _ => rfl
  cases kind
  case equal =>
    refine commutes_next.bind fun _ => (commutes_expr n).bind fun value => ?_
    refine (commutes_lift (commutes_terminator mode _)).bind fun _ => ?_
    exact rest (.field ⟨name.name, value⟩)
  case leftParen => exact method.bind rest
  all_goals exact (commutes_fail Member.bare _).bind rest

theorem Blind.readMembers_succ (ih : Blind mode n) :
    places.Commutes (List.map Member.bare) (Stmt.readMembers mode (n + 1))
      (Stmt.readMembers mode (n + 1)) := by
  unfold Stmt.readMembers
  refine commutes_kind.bind fun kind => ?_
  cases kind
  case rightBrace => exact commutes_next.bind fun _ => commutes_pure rfl
  case eof => exact commutes_fail _ _
  all_goals
    refine (commutes_expect _ _).bind fun name => commutes_kind.bind fun kind => ?_
    exact ih.commutes_member name kind

theorem blind (mode : Mode) (n : Nat) : Blind mode n := by
  induction n with
  | zero => exact blind_zero mode
  | succ n ih =>
    exact ⟨ih.read_succ, ih.readPlain_succ, ih.readBlock_succ, ih.readFunction_succ,
      ih.readClass_succ, ih.readMembers_succ⟩

end Stmt

/-! ## Programs -/

theorem commutes_readProgram (mode : Mode) (n : Nat) :
    PageReading.places.Commutes (List.map Stmt.bare) (readProgram mode n) (readProgram mode n) := by
  induction n with
  | zero => exact PageReading.commutes_fail _ _
  | succ n ih =>
    unfold readProgram
    refine PageReading.commutes_kind.bind fun kind => ?_
    simp only [id]
    split
    · exact View.commutes_pure rfl
    · refine (PageReading.commutes_recovering (Stmt.blind mode n).read _).bind fun first => ?_
      exact ih.bind fun rest => View.commutes_pure (by cases first <;> rfl)

/-- What reading gives, without places. -/
def Program.bare (p : Program) : Program :=
  ⟨p.statements.map Stmt.bare, p.errors.map ReadError.bare⟩

/-- **Reading does not look at places.** -/
theorem Program.ofTokens_bare (mode : Mode) (tokens : List Token) :
    Program.ofTokens mode (tokens.map Token.bare) = (Program.ofTokens mode tokens).bare := by
  unfold Program.ofTokens Program.ofStream
  rw [Stream.ofTokens_bare, Stream.bare_nestingBound]
  generalize Stream.ofTokens tokens = s
  have read := commutes_readProgram mode s.nestingBound ⟨s, []⟩
  rw [show (⟨s.bare, []⟩ : Page) = PageReading.places.state ⟨s, []⟩ from rfl, read]
  cases readProgram mode s.nestingBound ⟨s, []⟩ with
  | ok p page => rfl
  | error e page => simp [View.outcome, PageReading.places, Page.bare, bare]

end Scriptlet
