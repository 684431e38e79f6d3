import Scriptlet.Proofs.Reader.Complete
import Scriptlet.Proofs.Reader.Window

/-!
# Reading two streams at once

One stream ends where another one goes on (`Followed`). If the last token before that ends a
statement (`Joint`), what is read on the shorter stream is read on the longer one too: the two are
compared position by position, and each production is shown to do on the longer stream what it did
on the shorter one (`Tracks`). The longer stream also comes with a larger bound on the nesting.
-/

namespace Scriptlet

/-! ## Streams with a common part -/

/-- Kinds that can stand at the end of a program: its last statement ends with a semicolon or a
brace, and the end token follows. -/
def TokenKind.mayEnd : TokenKind → Bool
  | semicolon | rightBrace | eof => true
  | _ => false

theorem Stream.advance_here_ahead {s : Stream} (here : s.kind ≠ .eof) (more : s.ahead ≠ []) :
    s.advance.here :: s.advance.ahead = s.ahead := by
  unfold Stream.advance
  rw [if_neg (by simpa [Stream.atEnd] using here)]
  split
  · next none => exact absurd none more
  · next same => exact same.symm

/-- The first stream ends where the second goes on with `next` and `more`. Before that they have the
same tokens ahead, the last of which is of a kind in `E`. -/
def Followed (E : TokenKind → Bool) (next : Token) (more : List Token) (s t : Stream) : Prop :=
  ∃ common ending, s.here :: s.ahead = common ++ [ending] ∧
    t.here :: t.ahead = common ++ next :: more ∧ ending.kind = .eof ∧
    (∀ x ∈ common, x.kind ≠ .eof) ∧ ∀ x ∈ common.getLast?, E x.kind = true

namespace Followed

variable {E : TokenKind → Bool} {next : Token} {more : List Token} {s t : Stream}

/-- At the end of the first stream the second one stands at what follows. -/
theorem at_end (h : Followed E next more s t) (ends : s.kind = .eof) :
    t.here = next ∧ t.ahead = more := by
  obtain ⟨common, ending, first, second, -, inside, -⟩ := h
  cases common with
  | nil => exact List.cons.inj second
  | cons x rest =>
    have here := (List.cons.inj first).1
    exact absurd (here ▸ ends) (inside x List.mem_cons_self)

/-- The first stream ends. -/
theorem ends (h : Followed E next more s t) : s.Ends := by
  obtain ⟨common, ending, first, -, eof, -, -⟩ := h
  exact ⟨ending, first ▸ List.mem_append_right _ List.mem_cons_self, eof⟩

/-- Before the end the common part is a window of both streams. -/
theorem window (h : Followed E next more s t) (here : s.kind ≠ .eof) :
    ∃ (w : Stream) (ending : Token), w.passed = [] ∧ ending.kind = .eof ∧
      s = w.within s.passed [ending] ∧ t = w.within t.passed (next :: more) := by
  obtain ⟨common, ending, first, second, eof, -, -⟩ := h
  cases common with
  | nil =>
    have same : s.here = ending := (List.cons.inj first).1
    exact absurd (same ▸ eof : s.here.kind = .eof) here
  | cons x rest =>
    obtain ⟨passed, sHere, sAhead⟩ := s
    obtain ⟨passed', tHere, tAhead⟩ := t
    obtain ⟨sSame, sRest⟩ := List.cons.inj first
    obtain ⟨tSame, tRest⟩ := List.cons.inj second
    refine ⟨⟨[], x, rest⟩, ending, rfl, eof, ?_, ?_⟩
    · exact congrArg₂ (Stream.mk passed) sSame sRest
    · exact congrArg₂ (Stream.mk passed') tSame tRest

theorem kind_eq (h : Followed E next more s t) (here : s.kind ≠ .eof) : t.kind = s.kind := by
  obtain ⟨w, ending, -, -, sSame, tSame⟩ := h.window here
  exact (congrArg Stream.kind tSame).trans (congrArg Stream.kind sSame).symm

/-- Streams that stay beside one another go on alike. -/
theorem beside {w : Stream} {before before' : List Token} {ending : Token} (start : w.passed = [])
    (eof : ending.kind = .eof)
    (h : Followed E next more (w.within before [ending]) (w.within before' (next :: more)))
    (way : (w.within before [ending]).Forward s)
    (together : Stream.Beside before before' ending next more s t) : Followed E next more s t := by
  obtain ⟨common, ending', first, second, -, inside, last⟩ := h
  cases together with
  | behind sHere sAhead tHere tAhead =>
    exact ⟨[], ending, by rw [sHere, sAhead]; rfl, by rw [tHere, tAhead]; rfl, eof,
      List.forall_mem_nil _, by simp⟩
  | inside w' =>
    have front : (w.here :: w.ahead) ++ [ending] = common ++ [ending'] := first
    obtain ⟨rfl, -⟩ := List.append_inj' front rfl
    -- what is left of the window is the end of the common part
    have kept := way.tokens
    rw [Stream.tokens_within, Stream.tokens_within, List.append_cancel_left_eq,
      List.append_cancel_right_eq] at kept
    have parts : w'.passed.reverse ++ (w'.here :: w'.ahead) = w.here :: w.ahead := by
      simpa [Stream.tokens, start] using kept
    refine ⟨w'.here :: w'.ahead, ending, rfl, rfl, eof, fun x mem => ?_, fun x mem => ?_⟩
    · exact inside x (parts ▸ List.mem_append_right _ mem)
    · refine last x ?_
      rw [← parts, List.getLast?_append_of_ne_nil _ (List.cons_ne_nil _ _)]
      exact mem

end Followed

/-- The last of the tokens that both streams have ahead ends a statement. -/
abbrev Joint (next : Token) (more : List Token) (s t : Stream) : Prop :=
  Followed TokenKind.mayEnd next more s t

namespace Joint

variable {next : Token} {more : List Token} {s t : Stream}

/-- Before the end both streams have a token of the common part under their positions, and it is the
last one only if it can end a program. -/
theorem inside (h : Joint next more s t) (here : s.kind ≠ .eof) :
    t.here = s.here ∧ Joint next more s.advance t.advance ∧
      (s.kind.mayEnd = false → s.advance.kind ≠ .eof) := by
  obtain ⟨common, ending, first, second, eof, inside, last⟩ := h
  cases common with
  | nil =>
    have same : s.here = ending := (List.cons.inj first).1
    exact absurd (same ▸ eof : s.here.kind = .eof) here
  | cons x rest =>
    obtain ⟨sHere, sAhead⟩ := List.cons.inj first
    obtain ⟨tHere, tAhead⟩ := List.cons.inj second
    have same : t.here = s.here := tHere.trans sHere.symm
    have sMoves := Stream.advance_here_ahead here (sAhead ▸ by simp)
    have tMoves := Stream.advance_here_ahead (same ▸ here : t.here.kind ≠ .eof) (tAhead ▸ by simp)
    refine ⟨same, ⟨rest, ending, sMoves.trans sAhead, tMoves.trans tAhead, eof, ?_, ?_⟩, ?_⟩
    · exact fun y mem => inside y (List.mem_cons_of_mem x mem)
    · cases rest with
      | nil => simp
      | cons y rest => exact fun z mem => last z (by rwa [List.getLast?_cons_cons])
    · intro goesOn
      cases rest with
      | nil =>
        have ends : s.here.kind.mayEnd = true := sHere ▸ last x rfl
        rw [show s.here.kind.mayEnd = false from goesOn] at ends
        cases ends
      | cons y rest =>
        have front : s.advance.here = y := (List.cons.inj (sMoves.trans sAhead)).1
        rw [Stream.kind, front]
        exact inside y (List.mem_cons_of_mem x List.mem_cons_self)

end Joint

/-- Not at the end. -/
def Inside (kind : TokenKind) : Prop := kind ≠ .eof

/-- At a token of a kind, and not at the end. -/
def Here (kind : TokenKind) (here : TokenKind) : Prop := here = kind ∧ Inside here

/-- Anywhere, the end included. -/
def Anywhere (_ : TokenKind) : Prop := True

/-! ## Expressions -/

namespace Reading

variable {α β : Type}

/-- Whatever `r` reads on the shorter stream, from a token of a kind in `K`, `r'` reads on the
longer one, and reading stops at a token of a kind in `E`. -/
def Tracks (next : Token) (more : List Token) (K : TokenKind → Prop) (r r' : Reading α)
    (E : TokenKind → Prop) : Prop :=
  ∀ s t, Joint next more s t → K s.kind → ∀ a s₁, r s = .ok a s₁ →
    E s₁.kind ∧ ∃ t₁, r' t = .ok a t₁ ∧ Joint next more s₁ t₁

variable {next : Token} {more : List Token} {K K' E E' : TokenKind → Prop} {r r' : Reading α}

theorem Tracks.mono (h : Tracks next more K r r' E) (start : ∀ kind, K' kind → K kind)
    (stop : ∀ kind, E kind → E' kind) : Tracks next more K' r r' E' := by
  intro s t joint here a s₁ read
  obtain ⟨ends, rest⟩ := h s t joint (start _ here) a s₁ read
  exact ⟨stop _ ends, rest⟩

theorem Tracks.bind {k k' : α → Reading β} (h : Tracks next more K r r' E)
    (hk : ∀ a, Tracks next more E (k a) (k' a) E') :
    Tracks next more K (r >>= k) (r' >>= k') E' := by
  intro s t joint here b s₂ read
  obtain ⟨a, s₁, first, second⟩ := bind_eq_ok read
  obtain ⟨between, t₁, first', joint₁⟩ := h s t joint here a s₁ first
  obtain ⟨ends, t₂, second', joint₂⟩ := hk a s₁ t₁ joint₁ between b s₂ second
  exact ⟨ends, t₂, by rw [bind_of_ok first', second'], joint₂⟩

theorem tracks_pure (a : α) : Tracks next more K (pure a) (pure a) K := by
  intro s t joint here b s₁ read
  cases read
  exact ⟨here, t, rfl, joint⟩

theorem tracks_fail {expected : Expectation} : Tracks next more K (fail expected) r' E := by
  intro s t joint here b s₁ read
  cases read

theorem Tracks.kind_bind {f f' : TokenKind → Reading β}
    (h : ∀ k, Tracks next more (Here k) (f k) (f' k) E) :
    Tracks next more Inside (kind >>= f) (kind >>= f') E := by
  intro s t joint here b s₁ read
  obtain ⟨ends, t₁, read', joint'⟩ := h s.kind s t joint ⟨rfl, here⟩ b s₁ read
  refine ⟨ends, t₁, ?_, joint'⟩
  show f' t.kind t = _
  rw [joint.kind_eq here, read']

theorem Tracks.here_bind {f f' : Token → Reading β}
    (h : ∀ x, Tracks next more (Here x.kind) (f x) (f' x) E) :
    Tracks next more Inside (here >>= f) (here >>= f') E := by
  intro s t joint here b s₁ read
  obtain ⟨ends, t₁, read', joint'⟩ := h s.here s t joint ⟨rfl, here⟩ b s₁ read
  refine ⟨ends, t₁, ?_, joint'⟩
  show f' t.here t = _
  rw [(joint.inside here).1, read']

theorem tracks_next (k : TokenKind) : Tracks next more (Here k) Reading.next Reading.next
    fun after => k.mayEnd = false → Inside after := by
  intro s t joint here x s₁ read
  cases read
  obtain ⟨same, joint', goesOn⟩ := joint.inside here.2
  exact ⟨fun inner => goesOn (here.1 ▸ inner), t.advance, by rw [Reading.next, same], joint'⟩

/-- A token that cannot be the last one. -/
theorem tracks_inner {k : TokenKind} (inner : k.mayEnd = false) :
    Tracks next more (Here k) Reading.next Reading.next Inside :=
  (tracks_next k).mono (fun _ h => h) fun _ h => h inner

theorem tracks_expect {k : TokenKind} {expected : Expectation}
    (inner : k.mayEnd = false) :
    Tracks next more K (expect k expected) (expect k expected) Inside := by
  intro s t joint _ x s₁ read
  by_cases found : s.kind = k
  · have here : s.kind ≠ .eof := by
      rw [found]
      rintro rfl
      cases inner
    rw [expect, if_pos found] at read
    rw [expect, if_pos ((joint.kind_eq here).trans found)]
    exact tracks_inner inner s t joint ⟨found, here⟩ x s₁ read
  · rw [expect, if_neg found] at read
    cases read

theorem tracks_eat {k : TokenKind} (inner : k.mayEnd = false) :
    Tracks next more Inside (eat k) (eat k) Inside := by
  intro s t joint here x s₁ read
  have kind := joint.kind_eq here
  obtain ⟨-, joint', goesOn⟩ := joint.inside here
  by_cases found : s.kind = k
  · rw [eat, if_pos found] at read
    cases read
    exact ⟨goesOn (found ▸ inner), t.advance, by rw [eat, if_pos (kind.trans found)], joint'⟩
  · rw [eat, if_neg found] at read
    cases read
    exact ⟨here, t, by rw [eat, if_neg (kind ▸ found)], joint⟩

end Reading

/-- An operator is never the last token. -/
theorem mayEnd_of_ofToken {α : Type} {f : TokenKind → Option α} {kind : TokenKind} {a : α}
    (h : f kind = some a) (semicolon : f .semicolon = none)
    (brace : f .rightBrace = none) (eof : f .eof = none) :
    kind.mayEnd = false := by
  cases kind
  case semicolon | rightBrace | eof => simp_all
  all_goals rfl

namespace Expr

open Reading

/-- The productions track with bounds on the nesting. -/
structure Tracked (next : Token) (more : List Token) (n n' : Nat) : Prop where
  read : Tracks next more Inside (Expr.read n) (Expr.read n') Inside
  readLevel : ∀ k, Tracks next more Inside (Expr.readLevel n k) (Expr.readLevel n' k) Inside
  readLevelRest : ∀ k left,
    Tracks next more Inside (Expr.readLevelRest n k left) (Expr.readLevelRest n' k left) Inside
  readSigned : Tracks next more Inside (Expr.readSigned n) (Expr.readSigned n') Inside
  readStepped : Tracks next more Inside (Expr.readStepped n) (Expr.readStepped n') Inside
  readOperand : Tracks next more Inside (Expr.readOperand n) (Expr.readOperand n') Inside
  readPrimary : Tracks next more Inside (Expr.readPrimary n) (Expr.readPrimary n') Inside
  readElements : Tracks next more Inside (Expr.readElements n) (Expr.readElements n') Inside
  readChain : ∀ target,
    Tracks next more Inside (Expr.readChain n target) (Expr.readChain n' target) Inside
  readArguments : Tracks next more Inside (Expr.readArguments n) (Expr.readArguments n') Inside
  readArgumentsRest :
    Tracks next more Inside (Expr.readArgumentsRest n) (Expr.readArgumentsRest n') Inside

variable {next : Token} {more : List Token} {n n' : Nat}

theorem tracked_zero : Tracked next more 0 n' := by
  constructor <;> intros <;> exact tracks_fail

theorem Tracked.read_succ (ih : Tracked next more n n') :
    Tracks next more Inside (Expr.read (n + 1)) (Expr.read (n' + 1)) Inside := by
  unfold Expr.read
  refine (ih.readLevel 0).bind fun condition => (tracks_eat (by decide)).bind fun found => ?_
  cases found with
  | false => exact tracks_pure _
  | true =>
    refine ih.read.bind fun yes => (tracks_expect (by decide)).bind fun _ => ?_
    exact ih.read.bind fun no => tracks_pure _

theorem Tracked.readLevel_succ (ih : Tracked next more n n') (k : Nat) :
    Tracks next more Inside (Expr.readLevel (n + 1) k) (Expr.readLevel (n' + 1) k) Inside := by
  unfold Expr.readLevel
  split
  · exact (ih.readLevel (k + 1)).bind fun left => ih.readLevelRest k left
  · exact ih.readSigned

theorem Tracked.readLevelRest_succ (ih : Tracked next more n n') (k : Nat) (left : Expr) :
    Tracks next more Inside (Expr.readLevelRest (n + 1) k left)
      (Expr.readLevelRest (n' + 1) k left) Inside := by
  unfold Expr.readLevelRest
  refine Tracks.kind_bind fun kind => ?_
  cases found : Infix.at? k kind with
  | none => exact (tracks_pure left).mono (fun _ h => h) fun _ h => h.2
  | some op =>
    simp only [Infix.at?, Option.filter_eq_some_iff] at found
    refine (tracks_inner (mayEnd_of_ofToken found.1 rfl rfl rfl)).bind fun _ => ?_
    exact (ih.readLevel (k + 1)).bind fun right => ih.readLevelRest k _

theorem Tracked.readSigned_succ (ih : Tracked next more n n') :
    Tracks next more Inside (Expr.readSigned (n + 1)) (Expr.readSigned (n' + 1)) Inside := by
  unfold Expr.readSigned
  refine Tracks.kind_bind fun kind => ?_
  cases found : UnaryOp.ofToken? kind with
  | none => exact ih.readStepped.mono (fun _ h => h.2) fun _ h => h
  | some op =>
    refine (tracks_inner (mayEnd_of_ofToken found rfl rfl rfl)).bind fun sign => ?_
    exact ih.readSigned.bind fun operand => tracks_pure _

theorem Tracked.readStepped_succ (ih : Tracked next more n n') :
    Tracks next more Inside (Expr.readStepped (n + 1)) (Expr.readStepped (n' + 1)) Inside := by
  unfold Expr.readStepped
  refine Tracks.kind_bind fun kind => ?_
  cases found : StepOp.ofToken? kind with
  | none => exact ih.readOperand.mono (fun _ h => h.2) fun _ h => h
  | some op =>
    refine (tracks_inner (mayEnd_of_ofToken found rfl rfl rfl)).bind fun step => ?_
    exact ih.readOperand.bind fun operand => tracks_pure _

theorem Tracked.readOperand_succ (ih : Tracked next more n n') :
    Tracks next more Inside (Expr.readOperand (n + 1)) (Expr.readOperand (n' + 1)) Inside := by
  unfold Expr.readOperand
  refine ih.readPrimary.bind fun operand => Tracks.kind_bind fun kind => ?_
  cases found : StepOp.ofToken? kind with
  | none => exact (tracks_pure operand).mono (fun _ h => h) fun _ h => h.2
  | some op =>
    exact (tracks_inner (mayEnd_of_ofToken found rfl rfl rfl)).bind fun step => tracks_pure _

theorem Tracked.readPrimary_succ (ih : Tracked next more n n') :
    Tracks next more Inside (Expr.readPrimary (n + 1)) (Expr.readPrimary (n' + 1)) Inside := by
  unfold Expr.readPrimary
  refine Tracks.here_bind fun first => ?_
  cases kind : first.kind
  case numberLiteral | textLiteral =>
    cases first.literal with
    | none => exact tracks_fail
    | some value => exact (tracks_inner (by decide)).bind fun _ => tracks_pure _
  case kwTrue | kwFalse | kwNull => exact (tracks_inner (by decide)).bind fun _ => tracks_pure _
  case leftBracket =>
    exact (tracks_inner (by decide)).bind fun _ => ih.readElements.bind fun _ => tracks_pure _
  case leftParen =>
    refine (tracks_inner (by decide)).bind fun _ => ih.read.bind fun inner => ?_
    exact (tracks_expect (by decide)).bind fun close => tracks_pure _
  case identifier => exact (tracks_inner (by decide)).bind fun _ => ih.readChain _
  all_goals exact tracks_fail

/-- An element, its comma and the elements after it. -/
theorem Tracked.element (ih : Tracked next more n n') : Tracks next more Inside
    (do
      let element ← Expr.read n
      let _ ← eat .comma
      let (rest, close) ← Expr.readElements n
      return (element :: rest, close))
    (do
      let element ← Expr.read n'
      let _ ← eat .comma
      let (rest, close) ← Expr.readElements n'
      return (element :: rest, close)) Inside := by
  refine ih.read.bind fun element => (tracks_eat (by decide)).bind fun _ => ?_
  exact ih.readElements.bind fun _ => tracks_pure _

theorem Tracked.readElements_succ (ih : Tracked next more n n') :
    Tracks next more Inside (Expr.readElements (n + 1)) (Expr.readElements (n' + 1)) Inside := by
  unfold Expr.readElements
  refine Tracks.kind_bind fun kind => ?_
  cases kind
  case rightBracket => exact (tracks_inner (by decide)).bind fun _ => tracks_pure _
  case eof => exact tracks_fail
  all_goals exact ih.element.mono (fun _ h => h.2) fun _ h => h

/-- What may follow a chain that has no further link. -/
theorem Tracked.compound (ih : Tracked next more n n') (target : Expr) (kind : TokenKind) :
    Tracks next more (Here kind)
      (match BinaryOp.ofCompound? kind with
        | some op => do
          let _ ← Reading.next
          let value ← Expr.read n
          let combined := .binary (target.span.merge value.span) op target value
          return .assigned target combined
        | none => return target)
      (match BinaryOp.ofCompound? kind with
        | some op => do
          let _ ← Reading.next
          let value ← Expr.read n'
          let combined := .binary (target.span.merge value.span) op target value
          return .assigned target combined
        | none => return target) Inside := by
  cases found : BinaryOp.ofCompound? kind with
  | none => exact (tracks_pure target).mono (fun _ h => h) fun _ h => h.2
  | some op =>
    refine (tracks_inner (mayEnd_of_ofToken found rfl rfl rfl)).bind fun _ => ?_
    exact ih.read.bind fun value => tracks_pure _

theorem Tracked.readChain_succ (ih : Tracked next more n n') (target : Expr) :
    Tracks next more Inside (Expr.readChain (n + 1) target) (Expr.readChain (n' + 1) target)
      Inside := by
  unfold Expr.readChain
  refine Tracks.kind_bind fun kind => ?_
  cases kind
  case equal =>
    exact (tracks_inner (by decide)).bind fun _ => ih.read.bind fun value => tracks_pure _
  case dot =>
    refine (tracks_inner (by decide)).bind fun _ => ?_
    exact (tracks_expect (by decide)).bind fun field => ih.readChain _
  case leftBracket =>
    refine (tracks_inner (by decide)).bind fun _ => ih.read.bind fun position => ?_
    exact (tracks_expect (by decide)).bind fun close => ih.readChain _
  case leftParen =>
    exact (tracks_inner (by decide)).bind fun _ => ih.readArguments.bind fun _ => ih.readChain _
  all_goals exact ih.compound target _

theorem Tracked.readArguments_succ (ih : Tracked next more n n') :
    Tracks next more Inside (Expr.readArguments (n + 1)) (Expr.readArguments (n' + 1)) Inside := by
  unfold Expr.readArguments
  refine Tracks.kind_bind fun kind => ?_
  split
  · next closed =>
    subst closed
    exact (tracks_inner (by decide)).bind fun _ => tracks_pure _
  · exact ih.readArgumentsRest.mono (fun _ h => h.2) fun _ h => h

theorem Tracked.readArgumentsRest_succ (ih : Tracked next more n n') :
    Tracks next more Inside (Expr.readArgumentsRest (n + 1)) (Expr.readArgumentsRest (n' + 1))
      Inside := by
  unfold Expr.readArgumentsRest
  refine ih.read.bind fun arg => (tracks_eat (by decide)).bind fun found => ?_
  cases found with
  | true => exact ih.readArgumentsRest.bind fun _ => tracks_pure _
  | false => exact (tracks_expect (by decide)).bind fun _ => tracks_pure _

theorem tracked (next : Token) (more : List Token) {n n' : Nat} (le : n ≤ n') :
    Tracked next more n n' := by
  induction n generalizing n' with
  | zero => exact tracked_zero
  | succ n ih =>
    obtain ⟨n', rfl⟩ := Nat.exists_eq_add_one_of_ne_zero (Nat.ne_zero_of_lt le)
    have ih := ih (Nat.le_of_succ_le_succ le)
    exact ⟨ih.read_succ, ih.readLevel_succ, ih.readLevelRest_succ, ih.readSigned_succ,
      ih.readStepped_succ, ih.readOperand_succ, ih.readPrimary_succ, ih.readElements_succ,
      ih.readChain_succ, ih.readArguments_succ, ih.readArgumentsRest_succ⟩

end Expr

/-! ## Parts of statements -/

section

open Reading

variable {next : Token} {more : List Token} {n n' : Nat}

/-- A semicolon may be the last token. -/
theorem tracks_terminator {expected : Expectation} :
    Tracks next more Inside (readTerminator .file expected) (readTerminator .file expected)
      Anywhere := by
  intro s t joint here u s₁ read
  have ends := terminated_of_read read
  cases ends with
  | omitted interactive => cases interactive
  | written semicolon =>
    obtain ⟨-, joint', -⟩ := joint.inside here
    exact ⟨trivial, t.advance, readTerminator_of_semicolon ((joint.kind_eq here).trans semicolon),
      joint'⟩

theorem tracks_parametersRest (le : n ≤ n') :
    Tracks next more Inside (readParametersRest n) (readParametersRest n') Inside := by
  induction n generalizing n' with
  | zero => exact tracks_fail
  | succ n ih =>
    obtain ⟨n', rfl⟩ := Nat.exists_eq_add_one_of_ne_zero (Nat.ne_zero_of_lt le)
    unfold readParametersRest
    refine (tracks_expect (by decide)).bind fun param => ?_
    refine (tracks_eat (by decide)).bind fun found => ?_
    cases found with
    | true => exact (ih (Nat.le_of_succ_le_succ le)).bind fun rest => tracks_pure _
    | false => exact tracks_pure _

theorem tracks_parameters {K : TokenKind → Prop} (le : n ≤ n') :
    Tracks next more K (readParameters n) (readParameters n') Inside := by
  unfold readParameters
  have closing (params : List Name) : Tracks next more Inside
      (do
        let _ ← expect .rightParen .closedParameters
        return params)
      (do
        let _ ← expect .rightParen .closedParameters
        return params) Inside :=
    (tracks_expect (by decide)).bind fun _ => tracks_pure _
  refine (tracks_expect (by decide)).bind fun _ => Tracks.kind_bind fun kind => ?_
  split
  · exact ((tracks_pure _).mono (fun _ h => h.2) fun _ h => h).bind closing
  · exact ((tracks_parametersRest le).mono (fun _ h => h.2) fun _ h => h).bind closing

theorem tracks_someExpr (le : n ≤ n') :
    Tracks next more Inside (some <$> Expr.read n) (some <$> Expr.read n') Inside := by
  rw [map_eq_pure_bind, map_eq_pure_bind]
  exact (Expr.tracked next more le).read.bind fun _ => tracks_pure _

theorem tracks_variable {K : TokenKind → Prop} (constant : Bool) (le : n ≤ n') :
    Tracks next more K (readVariable .file constant n) (readVariable .file constant n')
      Anywhere := by
  unfold readVariable
  refine (tracks_expect (by decide)).bind fun name => (tracks_eat (by decide)).bind fun isSet => ?_
  have ending (value : Option Expr) : Tracks next more Inside
      (if (constant && value.isNone) = true then fail .constantValue
        else do
          readTerminator .file .declarationEnd
          return Stmt.declare name.name value constant)
      (if (constant && value.isNone) = true then fail .constantValue
        else do
          readTerminator .file .declarationEnd
          return Stmt.declare name.name value constant) Anywhere := by
    split
    · exact tracks_fail
    · exact (tracks_terminator).bind fun _ => tracks_pure _
  cases isSet with
  | true => exact (tracks_someExpr le).bind ending
  | false => exact (tracks_pure none).bind ending

/-- A return that is followed by something needs its semicolon. -/
theorem tracks_returnEnd (st : Stmt) : Tracks next more Inside
    (do
      if (← kind) ≠ .eof then readTerminator .file .returnEnd
      return st)
    (do
      if (← kind) ≠ .eof then readTerminator .file .returnEnd
      return st) Anywhere := by
  refine Tracks.kind_bind fun kind => ?_
  split
  · exact (tracks_terminator.mono (fun _ h => h.2) fun _ h => h).bind fun _ => tracks_pure _
  · exact (tracks_pure st).mono (fun _ h => h) fun _ _ => trivial

theorem tracks_return (keyword : Span) (le : n ≤ n') :
    Tracks next more Inside (readReturn .file keyword n) (readReturn .file keyword n')
      Anywhere := by
  unfold readReturn
  refine Tracks.kind_bind fun first => ?_
  split
  · exact (tracks_returnEnd _).mono (fun _ h => h.2) fun _ h => h
  · refine ((tracks_someExpr le).mono (fun _ h => h.2) fun _ h => h).bind fun value => ?_
    exact tracks_returnEnd _

end

/-! ## Statements -/

namespace PageReading

variable {α β : Type}

/-- Problems that stay with the declarations they are in: none of them stands at the end or comes
from the bound on the nesting, and what follows the end is a boundary. -/
def Isolated (next : Token) (errors : List ReadError) : Prop :=
  ∀ e ∈ errors, e.found ≠ .eof ∧ e.expected ≠ .lessNesting ∧
    KindSet.outside.contains next.kind = true

theorem Isolated.of_prefix {next : Token} {errors errors' : List ReadError}
    (h : Isolated next errors') (le : errors <+: errors') : Isolated next errors :=
  fun e mem => h e (le.subset mem)

/-- Reading never takes back a problem, and whatever `r` reads with isolated problems on the shorter
stream, `r'` reads with these problems on the longer one. -/
structure Tracks (next : Token) (more : List Token) (K : TokenKind → Prop) (r r' : PageReading α)
    (E : TokenKind → Prop) : Prop where
  quiet : ∀ page a page₁, r page = .ok a page₁ → page.errors <+: page₁.errors
  moves : ∀ s t, Joint next more s t → K s.kind → ∀ errors a s₁ errors₁,
    r ⟨s, errors⟩ = .ok a ⟨s₁, errors₁⟩ → Isolated next errors₁ →
    E s₁.kind ∧ ∃ t₁, r' ⟨t, errors⟩ = .ok a ⟨t₁, errors₁⟩ ∧ Joint next more s₁ t₁

variable {next : Token} {more : List Token} {K K' E E' : TokenKind → Prop} {r r' : PageReading α}

theorem Tracks.mono (h : Tracks next more K r r' E) (start : ∀ kind, K' kind → K kind)
    (stop : ∀ kind, E kind → E' kind) : Tracks next more K' r r' E' := by
  refine ⟨h.quiet, fun s t joint here errors a s₁ errors₁ read isolated => ?_⟩
  obtain ⟨ends, rest⟩ := h.moves s t joint (start _ here) errors a s₁ errors₁ read isolated
  exact ⟨stop _ ends, rest⟩

theorem Tracks.bind {k k' : α → PageReading β} (h : Tracks next more K r r' E)
    (hk : ∀ a, Tracks next more E (k a) (k' a) E') :
    Tracks next more K (r >>= k) (r' >>= k') E' := by
  constructor
  · intro page b page₂ read
    obtain ⟨a, page₁, first, second⟩ := bind_eq_ok read
    exact (h.quiet page a page₁ first).trans ((hk a).quiet page₁ b page₂ second)
  · intro s t joint here errors b s₂ errors₂ read isolated
    obtain ⟨a, ⟨s₁, errors₁⟩, first, second⟩ := bind_eq_ok read
    -- the problems of the first part are still there
    have isolated₁ : Isolated next errors₁ := isolated.of_prefix ((hk a).quiet _ b _ second)
    obtain ⟨between, t₁, first', joint₁⟩ :=
      h.moves s t joint here errors a s₁ errors₁ first isolated₁
    obtain ⟨ends, t₂, second', joint₂⟩ :=
      (hk a).moves s₁ t₁ joint₁ between errors₁ b s₂ errors₂ second isolated
    exact ⟨ends, t₂, by rw [bind_of_ok first', second'], joint₂⟩

theorem tracks_lift {r r' : Reading α} (h : Reading.Tracks next more K r r' E) :
    Tracks next more K (liftM r : PageReading α) (liftM r' : PageReading α) E := by
  constructor
  · intro page a page₁ read
    obtain ⟨s, -, rfl⟩ := lift_eq_ok read
    exact List.prefix_rfl
  · intro s t joint here errors a s₁ errors₁ read isolated
    obtain ⟨_, first, same⟩ := lift_eq_ok read
    cases same
    obtain ⟨ends, t₁, read', joint'⟩ := h s t joint here a s₁ first
    exact ⟨ends, t₁, lift_of_ok read', joint'⟩

theorem tracks_pure (a : α) : Tracks next more K (pure a) (pure a) K := by
  constructor
  · intro page b page₁ read
    cases read
    exact List.prefix_rfl
  · intro s t joint here errors b s₁ errors₁ read _
    cases read
    exact ⟨here, t, rfl, joint⟩

theorem tracks_fail {expected : Expectation} :
    Tracks next more K (liftM (Reading.fail expected : Reading α) : PageReading α) r' E := by
  constructor
  · intro page a page₁ read
    cases read
  · intro s t joint here errors a s₁ errors₁ read
    cases read

theorem Tracks.kind_bind {f f' : TokenKind → PageReading β}
    (h : ∀ k, Tracks next more (Here k) (f k) (f' k) E) :
    Tracks next more Inside (liftM Reading.kind >>= f) (liftM Reading.kind >>= f') E := by
  constructor
  · intro page b page₁ read
    exact (h page.stream.kind).quiet page b page₁ read
  · intro s t joint here errors b s₁ errors₁ read isolated
    obtain ⟨ends, t₁, read', joint'⟩ :=
      (h s.kind).moves s t joint ⟨rfl, here⟩ errors b s₁ errors₁ read isolated
    refine ⟨ends, t₁, ?_, joint'⟩
    show f' t.kind ⟨t, errors⟩ = _
    rw [joint.kind_eq here, read']

/-- The same for what cannot be read at the end. -/
theorem Tracks.kind_bind_of_fail {f f' : TokenKind → PageReading β}
    (h : ∀ k, Tracks next more (Here k) (f k) (f' k) E)
    (ends : ∀ page b page₁, f .eof page ≠ .ok b page₁) :
    Tracks next more Anywhere (liftM Reading.kind >>= f) (liftM Reading.kind >>= f') E := by
  refine ⟨(Tracks.kind_bind h).quiet, fun s t joint _ errors b s₁ errors₁ read isolated => ?_⟩
  refine (Tracks.kind_bind h).moves s t joint (fun eof => ?_) errors b s₁ errors₁ read isolated
  have read : f s.kind ⟨s, errors⟩ = .ok b ⟨s₁, errors₁⟩ := read
  rw [eof] at read
  exact ends _ _ _ read

/-- What is read before the end of the first stream is read on both. -/
theorem read_followed {last : TokenKind → Bool}
    (mirrors : ∀ before before' ending, Mirrors before before' [ending] (next :: more) r r')
    {s s₁ t : Stream} (followed : Followed last next more s t) {errors errors₁ : List ReadError}
    {a : α} (read : r ⟨s, errors⟩ = .ok a ⟨s₁, errors₁⟩) (shallow : Shallow errors₁)
    (goesOn : s₁.kind ≠ .eof) :
    ∃ t₁, r' ⟨t, errors⟩ = .ok a ⟨t₁, errors₁⟩ ∧ Followed last next more s₁ t₁ := by
  have way := ((mirrors [] [] next).walks.ok _ a _ read).stream
  obtain ⟨w, ending, start, eof, sSame, tSame⟩ :=
    followed.window fun eof => goesOn (way.at_end eof)
  have ends : (w.within s.passed [ending]).Ends :=
    ⟨ending, List.mem_cons_of_mem _ (List.mem_append_right _ List.mem_cons_self), eof⟩
  rw [sSame] at read way
  rw [sSame, tSame] at followed
  have inside : [ending].length ≤ s₁.ahead.length := by
    rw [Stream.ahead_advance (way.ends ends) goesOn]
    exact Nat.le_add_left 1 _
  obtain ⟨w₁, new, same, read'⟩ :=
    (mirrors s.passed t.passed ending).ok w errors a _ ends read shallow inside
  injection same with streams added
  have read' := read' errors
  rw [← tSame, ← added] at read'
  rw [streams] at way ⊢
  exact ⟨_, read', followed.beside start eof way (.inside w₁)⟩

/-- A declaration that fails with isolated problems does so before the end, where both streams are
the same, and after recovering they go on alike. -/
theorem recover_followed {last : TokenKind → Bool}
    (mirrors : ∀ before before' ending, Mirrors before before' [ending] (next :: more) r r')
    {boundary : Boundary}
    (wide : ∀ kind, KindSet.outside.contains kind = true → boundary.contains kind = true)
    {s t : Stream} (followed : Followed last next more s t) {errors : List ReadError}
    {e : ReadError} {page : Page} (failed : r ⟨s, errors⟩ = .error e page)
    (isolated : Isolated next (page.errors ++ [e])) :
    ∃ s₁ t₁, recovering boundary r ⟨s, errors⟩ = .ok none ⟨s₁, page.errors ++ [e]⟩ ∧
      recovering boundary r' ⟨t, errors⟩ = .ok none ⟨t₁, page.errors ++ [e]⟩ ∧
      Followed last next more s₁ t₁ := by
  have walks := (mirrors [] [] next).walks
  obtain ⟨found, -, bounds⟩ := isolated e (List.mem_append_right _ List.mem_cons_self)
  have shallow : Shallow (page.errors ++ [e]) := fun x mem => (isolated x mem).2.1
  have inside : s.kind ≠ .eof := by
    intro eof
    have stands := congrArg ReadError.found (walks.stands _ e page failed)
    exact found (stands.trans ((walks.error _ e page failed).stream.at_end eof))
  obtain ⟨w, ending, start, eof, sSame, tSame⟩ := followed.window inside
  rw [sSame] at failed
  rw [sSame, tSame] at followed
  have ends : (w.within s.passed [ending]).Ends :=
    ⟨ending, List.mem_cons_of_mem _ (List.mem_append_right _ List.mem_cons_self), eof⟩
  obtain ⟨s₁, t₁, new, recovered, recovered', together⟩ :=
    (mirrors s.passed t.passed ending).recover (wide _ bounds) ends failed found shallow
  have way := ((walks.recovering boundary).ok _ _ _ recovered).stream
  -- both record the problems of the declaration
  have same : errors ++ new = page.errors ++ [e] := by
    have record := recovered
    rw [PageReading.recovering, failed] at record
    injection record with _ pages
    exact (congrArg Page.errors pages).symm
  refine ⟨s₁, t₁, ?_, ?_, followed.beside start eof way together⟩
  · rw [sSame, recovered, same]
  · rw [tSame, recovered', same]

/-- Recovering from isolated problems tracks. -/
theorem Tracks.recovering (h : Tracks next more K r r' Anywhere)
    (mirrors : ∀ before before' ending,
      Mirrors before before' [ending] (next :: more) r r') {boundary : Boundary}
    (wide : ∀ kind, KindSet.outside.contains kind = true → boundary.contains kind = true) :
    Tracks next more K (recovering boundary r) (recovering boundary r') Anywhere := by
  have walks := (mirrors [] [] next).walks.recovering boundary
  refine ⟨fun page a page₁ read => (walks.ok page a page₁ read).errors, ?_⟩
  intro s t joint here errors a s₁ errors₁ read isolated
  cases first : r ⟨s, errors⟩ with
  | ok b page =>
    rw [recovering_of_ok first] at read
    cases read
    obtain ⟨ends, t₁, read', joint'⟩ := h.moves s t joint here errors b s₁ errors₁ first isolated
    exact ⟨ends, t₁, recovering_of_ok read', joint'⟩
  | error e page =>
    have last : errors₁ = page.errors ++ [e] := by
      rw [recovering_of_error first] at read
      cases read
      rfl
    obtain ⟨s₂, t₂, recovered, recovered', joint'⟩ :=
      recover_followed mirrors wide joint first (last ▸ isolated)
    rw [recovered] at read
    cases read
    exact ⟨trivial, t₂, recovered', joint'⟩

/-- Behind a branch an `else` may follow, but not the one that the longer stream goes on with. -/
theorem Tracks.eat_else_bind {k k' : Bool → PageReading β} (other : next.kind ≠ .kwElse)
    (found : Tracks next more Inside (k true) (k' true) E)
    (missing : Tracks next more Anywhere (k false) (k' false) E) :
    Tracks next more Anywhere (liftM (Reading.eat .kwElse) >>= k)
      (liftM (Reading.eat .kwElse) >>= k') E := by
  have before : Tracks next more Inside (liftM (Reading.eat .kwElse) >>= k)
      (liftM (Reading.eat .kwElse) >>= k') E := by
    refine (tracks_lift (Reading.tracks_eat (by decide))).bind fun eaten => ?_
    cases eaten with
    | true => exact found
    | false => exact missing.mono (fun _ _ => trivial) fun _ h => h
  refine ⟨before.quiet, fun s t joint _ errors b s₁ errors₁ read isolated => ?_⟩
  by_cases eof : s.kind = .eof
  · have tKind : t.kind ≠ .kwElse := by
      rw [Stream.kind, (joint.at_end eof).1]
      exact other
    have read : k false ⟨s, errors⟩ = .ok b ⟨s₁, errors₁⟩ := by
      rwa [bind_of_ok (lift_of_ok (Reading.eat_of_ne (by rw [eof]; decide)))] at read
    obtain ⟨ends, t₁, read', joint'⟩ :=
      missing.moves s t joint trivial errors b s₁ errors₁ read isolated
    refine ⟨ends, t₁, ?_, joint'⟩
    rw [bind_of_ok (lift_of_ok (Reading.eat_of_ne tKind)), read']
  · exact before.moves s t joint eof errors b s₁ errors₁ read isolated

end PageReading

namespace Stmt

open PageReading

/-- The productions of statements track with bounds on the nesting. -/
structure Tracked (next : Token) (more : List Token) (n n' : Nat) : Prop where
  read : Tracks next more Inside (Stmt.read .file n) (Stmt.read .file n') Anywhere
  readPlain : Tracks next more Inside (Stmt.readPlain .file n) (Stmt.readPlain .file n') Anywhere
  readBlock : Tracks next more Anywhere (Stmt.readBlock .file n) (Stmt.readBlock .file n') Anywhere
  readFunction : ∀ name isMethod, Tracks next more Inside (Stmt.readFunction .file name isMethod n)
    (Stmt.readFunction .file name isMethod n') Anywhere
  readClass : Tracks next more Inside (Stmt.readClass .file n) (Stmt.readClass .file n') Anywhere
  readMembers :
    Tracks next more Anywhere (Stmt.readMembers .file n) (Stmt.readMembers .file n') Anywhere

theorem tracked_zero {next : Token} {more : List Token} {n' : Nat} : Tracked next more 0 n' := by
  constructor <;> intros <;> exact tracks_fail

variable {next : Token} {more : List Token} {n n' : Nat}

/-- A token that cannot be the last one. -/
theorem tracks_inner {k : TokenKind} (inner : k.mayEnd = false) :
    Tracks next more (Here k) (liftM Reading.next : PageReading Token)
      (liftM Reading.next : PageReading Token) Inside :=
  tracks_lift (Reading.tracks_inner inner)

theorem tracks_expect {K : TokenKind → Prop} {k : TokenKind} {expected : Expectation}
    (inner : k.mayEnd = false) :
    Tracks next more K (liftM (Reading.expect k expected) : PageReading Token)
      (liftM (Reading.expect k expected) : PageReading Token) Inside :=
  tracks_lift (Reading.tracks_expect inner)

theorem tracks_expr (le : n ≤ n') :
    Tracks next more Inside (liftM (Expr.read n) : PageReading Expr)
      (liftM (Expr.read n') : PageReading Expr) Inside :=
  tracks_lift (Expr.tracked next more le).read

/-- A closing brace may be the last token. -/
theorem tracks_closing {α : Type} (k : TokenKind) (a : α) :
    Tracks next more (Here k) (liftM Reading.next >>= fun _ => pure a : PageReading α)
      (liftM Reading.next >>= fun _ => pure a : PageReading α) Anywhere :=
  (tracks_lift (Reading.tracks_next k)).bind fun _ =>
    (PageReading.tracks_pure a).mono (fun _ h => h) fun _ _ => trivial

theorem Tracked.read_succ (ih : Tracked next more n n') (le : n ≤ n') :
    Tracks next more Inside (Stmt.read .file (n + 1)) (Stmt.read .file (n' + 1)) Anywhere := by
  unfold Stmt.read
  refine Tracks.kind_bind fun kind => ?_
  cases kind
  case kwVar | kwConst =>
    exact (tracks_inner (by decide)).bind fun _ => tracks_lift (tracks_variable _ le)
  case kwFunction =>
    refine (tracks_inner (by decide)).bind fun _ => (tracks_expect (by decide)).bind fun name => ?_
    exact (ih.readFunction name.name false).bind fun decl => tracks_pure _
  case kwClass =>
    exact (tracks_inner (by decide)).bind fun _ => ih.readClass.bind fun decl => tracks_pure _
  all_goals exact ih.readPlain.mono (fun _ h => h.2) fun _ h => h

theorem Tracked.readPlain_succ (ih : Tracked next more n n') (le : n ≤ n')
    (other : next.kind ≠ .kwElse) :
    Tracks next more Inside (Stmt.readPlain .file (n + 1)) (Stmt.readPlain .file (n' + 1))
      Anywhere := by
  unfold Stmt.readPlain
  refine Tracks.kind_bind fun kind => ?_
  cases kind
  case leftBrace =>
    refine (tracks_inner (by decide)).bind fun _ => ?_
    exact (ih.readBlock.mono (fun _ _ => trivial) fun _ h => h).bind fun body => tracks_pure _
  case kwIf =>
    refine (tracks_inner (by decide)).bind fun _ => (tracks_expect (by decide)).bind fun _ => ?_
    refine (tracks_expr le).bind fun condition => (tracks_expect (by decide)).bind fun _ => ?_
    refine ih.readPlain.bind fun yes => .eat_else_bind other ?_ (tracks_pure _)
    exact ih.readPlain.bind fun no => tracks_pure _
  case kwWhile =>
    refine (tracks_inner (by decide)).bind fun _ => (tracks_expect (by decide)).bind fun _ => ?_
    refine (tracks_expr le).bind fun condition => (tracks_expect (by decide)).bind fun _ => ?_
    exact ih.readPlain.bind fun body => tracks_pure _
  case kwReturn =>
    exact (tracks_inner (by decide)).bind fun keyword => tracks_lift (tracks_return keyword.span le)
  all_goals
    refine ((tracks_expr le).mono (fun _ h => h.2) fun _ h => h).bind fun e => ?_
    exact (tracks_lift tracks_terminator).bind fun _ => tracks_pure _

theorem mirrors_read (le : n ≤ n') (before before' after after' : List Token) :
    Mirrors before before' after after' (Stmt.read .file n) (Stmt.read .file n') :=
  (Stmt.lawful (mirroring before before' after after')
    ((Reading.mirroring before before' after after').terminator .file) le).read

theorem Tracked.readBlock_succ (ih : Tracked next more n n') (le : n ≤ n') :
    Tracks next more Anywhere (Stmt.readBlock .file (n + 1)) (Stmt.readBlock .file (n' + 1))
      Anywhere := by
  have recovers := ih.read.recovering
    (fun before before' ending => mirrors_read le before before' [ending] (next :: more))
    fun kind bounds => show Boundary.inside.contains kind = true from
      KindSet.contains_inside_of_outside bounds
  unfold Stmt.readBlock
  refine Tracks.kind_bind_of_fail (fun kind => ?_) (fun _ _ _ read => by cases read)
  cases kind
  case rightBrace => exact tracks_closing _ _
  case eof => exact tracks_fail
  all_goals
    refine (recovers.mono (fun _ h => h.2) fun _ h => h).bind fun first => ?_
    exact ih.readBlock.bind fun rest => tracks_pure _

theorem Tracked.readFunction_succ (ih : Tracked next more n n') (le : n ≤ n') (name : Name)
    (isMethod : Bool) : Tracks next more Inside (Stmt.readFunction .file name isMethod (n + 1))
      (Stmt.readFunction .file name isMethod (n' + 1)) Anywhere := by
  unfold Stmt.readFunction
  refine (tracks_lift (tracks_parameters le)).bind fun params => ?_
  refine (tracks_expect (by decide)).bind fun _ => ?_
  exact (ih.readBlock.mono (fun _ _ => trivial) fun _ h => h).bind fun body => tracks_pure _

theorem Tracked.readClass_succ (ih : Tracked next more n n') :
    Tracks next more Inside (Stmt.readClass .file (n + 1)) (Stmt.readClass .file (n' + 1))
      Anywhere := by
  unfold Stmt.readClass
  have body (name : Token) (superclass : Option Name) : Tracks next more Inside
      (do
        let _ ← liftM (Reading.expect .leftBrace .openClass)
        let members ← Stmt.readMembers .file n
        return ClassDecl.ofMembers name.name superclass members)
      (do
        let _ ← liftM (Reading.expect .leftBrace .openClass)
        let members ← Stmt.readMembers .file n'
        return ClassDecl.ofMembers name.name superclass members) Anywhere := by
    refine (tracks_expect (by decide)).bind fun _ => ?_
    exact (ih.readMembers.mono (fun _ _ => trivial) fun _ h => h).bind fun members => tracks_pure _
  refine (tracks_expect (by decide)).bind fun name => ?_
  refine (tracks_lift (Reading.tracks_eat (by decide))).bind fun isBelow => ?_
  cases isBelow with
  | true => exact (tracks_expect (by decide)).bind fun token => body name (some token.name)
  | false => exact body name none

/-- What follows the name of a member, with the members after it. -/
theorem Tracked.member (ih : Tracked next more n n') (le : n ≤ n') (name : Token)
    (kind : TokenKind) : Tracks next more (Here kind)
      (do
        let member ← match kind with
          | .equal =>
            let _ ← Reading.next
            let value ← Expr.read n
            readTerminator .file .fieldEnd
            pure (.field ⟨name.name, value⟩)
          | .leftParen => Member.method <$> Stmt.readFunction .file name.name true n
          | _ => (Reading.fail .memberRest : Reading Member)
        let rest ← Stmt.readMembers .file n
        return member :: rest)
      (do
        let member ← match kind with
          | .equal =>
            let _ ← Reading.next
            let value ← Expr.read n'
            readTerminator .file .fieldEnd
            pure (.field ⟨name.name, value⟩)
          | .leftParen => Member.method <$> Stmt.readFunction .file name.name true n'
          | _ => (Reading.fail .memberRest : Reading Member)
        let rest ← Stmt.readMembers .file n'
        return member :: rest) Anywhere := by
  have rest (member : Member) : Tracks next more Anywhere
      (do
        let rest ← Stmt.readMembers .file n
        return member :: rest)
      (do
        let rest ← Stmt.readMembers .file n'
        return member :: rest) Anywhere :=
    ih.readMembers.bind fun rest => tracks_pure _
  have method : Tracks next more (Here .leftParen)
      (Member.method <$> Stmt.readFunction .file name.name true n)
      (Member.method <$> Stmt.readFunction .file name.name true n') Anywhere := by
    rw [map_eq_pure_bind, map_eq_pure_bind]
    exact ((ih.readFunction name.name true).mono (fun _ h => h.2) fun _ h => h).bind
      fun decl => tracks_pure _
  cases kind
  case equal =>
    refine (tracks_inner (by decide)).bind fun _ => (tracks_expr le).bind fun value => ?_
    refine (tracks_lift tracks_terminator).bind fun _ => ?_
    exact rest (.field ⟨name.name, value⟩)
  case leftParen => exact method.bind rest
  all_goals exact (tracks_fail (E := Anywhere)).bind rest

theorem Tracked.readMembers_succ (ih : Tracked next more n n') (le : n ≤ n') :
    Tracks next more Anywhere (Stmt.readMembers .file (n + 1)) (Stmt.readMembers .file (n' + 1))
      Anywhere := by
  unfold Stmt.readMembers
  refine Tracks.kind_bind_of_fail (fun kind => ?_) (fun _ _ _ read => by cases read)
  cases kind
  case rightBrace => exact tracks_closing _ _
  case eof => exact tracks_fail
  all_goals
    refine (tracks_expect (by decide)).bind fun name => Tracks.kind_bind fun kind => ?_
    exact ih.member le name kind

theorem tracked {next : Token} (more : List Token) (other : next.kind ≠ .kwElse) {n n' : Nat}
    (le : n ≤ n') : Tracked next more n n' := by
  induction n generalizing n' with
  | zero => exact tracked_zero
  | succ n ih =>
    obtain ⟨n', rfl⟩ := Nat.exists_eq_add_one_of_ne_zero (Nat.ne_zero_of_lt le)
    have le := Nat.le_of_succ_le_succ le
    have ih := ih le
    exact ⟨ih.read_succ le, ih.readPlain_succ le other, ih.readBlock_succ le,
      ih.readFunction_succ le, ih.readClass_succ, ih.readMembers_succ le⟩

end Stmt

end Scriptlet
