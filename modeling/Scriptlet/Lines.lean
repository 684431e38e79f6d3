import Scriptlet.Span

/-!
# Lines of a text

Lines and columns are counted from one, in characters. `LineTable` holds the offset at which every
line starts; `lineNumber` counts line ends directly; `textLines` cuts the text into the lines that
a report quotes.
-/

namespace Scriptlet

/-- The offsets that follow a line end, for a text that starts at offset `pos`. -/
def startsAfter (pos : Nat) : List Char → List Nat
  | [] => []
  | c :: rest =>
    if c = '\n' then (pos + 1) :: startsAfter (pos + 1) rest else startsAfter (pos + 1) rest

/-- Where the lines of a text start, in ascending order, and how long the text is. -/
structure LineTable where
  starts : List Nat
  length : Nat
deriving DecidableEq, Repr

/-- A position for people: a line and a column. -/
structure Position where
  line : Nat
  column : Nat
deriving DecidableEq, Repr

namespace LineTable

/-- The table of a list of characters. -/
def ofChars (cs : List Char) : LineTable := ⟨0 :: startsAfter 0 cs, cs.length⟩

/-- The table of a text. -/
def ofText (text : String) : LineTable := ofChars text.toList

/-- Halve a range of an ascending list until one element is left: the last that is not above `x`,
unless the first is. -/
def halve (xs : List Nat) (x base size : Nat) (inside : base + size ≤ xs.length) : Nat :=
  if small : size ≤ 1 then base
  else
    have middle : base + size / 2 < xs.length := by omega
    if x < xs[base + size / 2] then halve xs x base (size - size / 2) (by omega)
    else halve xs x (base + size / 2) (size - size / 2) (by omega)
termination_by size

/-- Look a number up in an ascending list: where it stands, or else where it would have to be
inserted. -/
def search (xs : List Nat) (x : Nat) : Except Nat Nat :=
  let i := halve xs x 0 xs.length (Nat.le_of_eq (Nat.zero_add _))
  match xs[i]? with
  | none => .error 0
  | some found => if found = x then .ok i else .error (if found < x then i + 1 else i)

/-- The line on which an offset lies: the one that starts there, or the one before the place where
such a line would have to be inserted. -/
def lineAt (t : LineTable) (offset : Nat) : Nat :=
  match search t.starts offset with
  | .ok line => line + 1
  | .error line => line - 1 + 1

/-- The offset of the first character of a line. -/
def start? (t : LineTable) : Nat → Option Nat
  | 0 => none
  | line + 1 => t.starts[line]?

/-- Line and column of an offset; an offset past the end counts as the end. -/
def position (t : LineTable) (offset : Nat) : Position :=
  let offset := min offset t.length
  let line := t.lineAt offset
  ⟨line, offset - (t.start? line).getD 0 + 1⟩

/-- The number of lines; a text that ends with a line end has an empty line after it. -/
def count (t : LineTable) : Nat := t.starts.length

end LineTable

/-- The line on which an offset lies, counted from the line ends before it. -/
def lineNumber (text : String) (offset : Nat) : Nat := (text.toList.take offset).count '\n' + 1

/-- The lines of a text without their ends, which are a line feed with an optional carriage return
before it. No line follows the last line end. -/
def textLines : List Char → List (List Char)
  | [] => []
  | '\n' :: rest => [] :: textLines rest
  | '\r' :: '\n' :: rest => [] :: textLines rest
  | c :: rest =>
    match textLines rest with
    | [] => [[c]]
    | line :: more => (c :: line) :: more

/-- The quoted form of a line, counted from one. -/
def lineText? (text : String) : Nat → Option String
  | 0 => none
  | line + 1 => (textLines text.toList)[line]?.map String.ofList

end Scriptlet
