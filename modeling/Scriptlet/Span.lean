/-!
# Spans

A span is a half-open range of character offsets into a text. Offsets count characters, never
bytes, so a span indexes the text read as a list of characters, and the per-character overlay of
the painter, directly.
-/

namespace Scriptlet

/-- The characters from `start` up to, and not including, `stop`. -/
structure Span where
  start : Nat
  stop : Nat
deriving DecidableEq, Repr, Inhabited

namespace Span

/-- The span of something that stands nowhere in the text. -/
def nowhere : Span := ⟨0, 0⟩

/-- The empty span at an offset. -/
def point (offset : Nat) : Span := ⟨offset, offset⟩

def length (s : Span) : Nat := s.stop - s.start

def isEmpty (s : Span) : Bool := s.start == s.stop

/-- The offset of the last character, and `start` for an empty span. -/
def last (s : Span) : Nat := if s.start < s.stop then s.stop - 1 else s.start

def contains (s : Span) (offset : Nat) : Bool := s.start ≤ offset && offset < s.stop

/-- The smallest span that covers both. -/
def merge (s t : Span) : Span := ⟨min s.start t.start, max s.stop t.stop⟩

/-- The covered part of a list of characters. -/
def sliceChars (s : Span) (text : List Char) : List Char := (text.drop s.start).take s.length

/-- The covered part of a text; what lies past its end is left out. -/
def slice (s : Span) (text : String) : String := String.ofList (s.sliceChars text.toList)

/-- The written form `start..stop`. -/
def text (s : Span) : String := toString s.start ++ ".." ++ toString s.stop

@[simp] theorem merge_self (s : Span) : s.merge s = s := by
  simp [merge]

theorem merge_assoc (s t u : Span) : (s.merge t).merge u = s.merge (t.merge u) := by
  simp [merge, Nat.min_assoc, Nat.max_assoc]

theorem start_merge_le (s t : Span) : (s.merge t).start ≤ s.start := Nat.min_le_left ..

theorem stop_le_merge (s t : Span) : s.stop ≤ (s.merge t).stop := Nat.le_max_left ..

theorem contains_iff (s : Span) (offset : Nat) :
    s.contains offset = true ↔ s.start ≤ offset ∧ offset < s.stop := by
  simp [contains]

end Span
end Scriptlet
