import Scriptlet.Reader.KindSet

/-!
# Token streams

A stream is a list of tokens with a reading position in it: the token under the position, the
tokens already passed, and the tokens ahead. There is always a token under the position, so reading
needs no bounds check, and the position never moves past a token of kind `eof`.
-/

namespace Scriptlet

/-- Tokens with a reading position. -/
structure Stream where
  /-- The tokens before the position, the nearest first. -/
  passed : List Token
  /-- The token under the position. -/
  here : Token
  /-- The tokens after the position. -/
  ahead : List Token
deriving DecidableEq, Repr

namespace Stream

/-- The end token that a token list lacks: it stands where the last token ends. -/
def missingEnd : Option Token → Token
  | none => .ending 1 0
  | some t => .ending t.line t.span.stop

/-- A token list that ends with an end token. -/
def withEnd (tokens : List Token) : List Token :=
  match tokens.getLast? with
  | some t => if t.kind = .eof then tokens else tokens ++ [missingEnd (some t)]
  | none => [missingEnd none]

/-- The stream at the first token of a list, without its comments. -/
def ofTokens (tokens : List Token) : Stream :=
  match withEnd (tokens.filter (!·.kind.isTrivia)) with
  | [] => ⟨[], missingEnd none, []⟩
  | t :: rest => ⟨[], t, rest⟩

/-- How many tokens lie before the position. -/
def position (s : Stream) : Nat := s.passed.length

/-- The kind of the token under the position. -/
def kind (s : Stream) : TokenKind := s.here.kind

def atEnd (s : Stream) : Bool := s.kind == .eof

/-- The kind of the token after the position. -/
def nextKind (s : Stream) : TokenKind :=
  match s.ahead with
  | [] => .eof
  | t :: _ => t.kind

/-- The token passed last, and the one under the position if none was passed. -/
def previous (s : Stream) : Token := s.passed.headD s.here

/-- The span of the token passed last. -/
def previousSpan (s : Stream) : Span :=
  match s.passed with
  | [] => .nowhere
  | t :: _ => t.span

/-- Move past the token under the position; at the end nothing moves. -/
def advance (s : Stream) : Stream :=
  if s.atEnd then s
  else match s.ahead with
    | [] => s
    | t :: rest => ⟨s.here :: s.passed, t, rest⟩

/-- Move on, one token after the other, until the kind of the token under the position is in a set:
how many moves that takes, and the stream there. Nothing is found if more moves are needed than are
allowed. -/
def seek (set : KindSet) : Nat → Stream → Option (Nat × Stream)
  | 0, s => if set.contains s.kind then some (0, s) else none
  | n + 1, s =>
    if set.contains s.kind then some (0, s)
    else (seek set n s.advance).map fun (skipped, found) => (skipped + 1, found)

/-- Skip tokens up to the next one whose kind is in a set: how many were skipped, and the stream
there. More moves than there are tokens ahead never find one that fewer do not find
(`seek_eq_none`), so there is no result exactly if skipping would go on for ever: at an end that is
not in the set nothing moves. -/
def synchronize (s : Stream) (set : KindSet) : Option (Nat × Stream) := seek set s.ahead.length s

/-- The stream at the next boundary. The end is a boundary, so a stream that ends has one ahead
(`synchronize_boundary`). -/
def toBoundary (s : Stream) (boundary : Boundary) : Stream :=
  match s.synchronize boundary.toKindSet with
  | some (_, found) => found
  | none => s

/-- All tokens of the stream, in order. -/
def tokens (s : Stream) : List Token := s.passed.reverse ++ s.here :: s.ahead

/-! ## Moving keeps the tokens and never goes back -/

theorem position_le_advance (s : Stream) : s.position ≤ s.advance.position := by
  unfold advance
  split
  · exact Nat.le_refl _
  · split
    · exact Nat.le_refl _
    · simp [position]

theorem tokens_advance (s : Stream) : s.advance.tokens = s.tokens := by
  unfold advance
  split
  · rfl
  · split
    · rfl
    · next h => simp [tokens, h]

end Stream
end Scriptlet
