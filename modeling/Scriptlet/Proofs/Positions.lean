import Mathlib.Data.List.Basic
import Scriptlet.Diagnostic.Render
import Scriptlet.Proofs.Lines

/-!
# Positions

A position is found in the table of line starts, by halving, and what a report quotes is cut from
the text line by line. The two are in step (`positions_quoted`): line and column lead back to the
offset, and a character that belongs to a line stands in the quoted line at its column, so that the
first caret of a report stands under it.

Only line feeds end lines, in the table and in the quotes. A carriage return right before one is
counted as a column but not quoted, so it is the one character of a line that a caret cannot point
at (`standsAt_of_getElem?`).
-/

namespace Scriptlet

/-! ## The table leads back -/

/-- Before in reading order: on an earlier line, or on the same line further left. -/
def Position.Before (p q : Position) : Prop :=
  p.line < q.line ∨ p.line = q.line ∧ p.column < q.column

namespace LineTable

variable (text : String)

theorem length_ofText : (ofText text).length = text.length := String.length_toList

/-- Line and column lead back to the offset. -/
theorem exists_start (offset : Nat) :
    ∃ start, (ofText text).start? ((ofText text).position offset).line = some start ∧
      start + ((ofText text).position offset).column = min offset text.length + 1 := by
  obtain ⟨start, found, reached, -⟩ := start?_lineAt text (min offset text.length)
  refine ⟨start, ?_, ?_⟩
  · show (ofText text).start? ((ofText text).lineAt (min offset (ofText text).length)) = some start
    rw [length_ofText]
    exact found
  · simp only [position, length_ofText, found, Option.getD_some]
    omega

theorem one_le_column (offset : Nat) : 1 ≤ ((ofText text).position offset).column :=
  Nat.le_add_left 1 _

theorem line_position (offset : Nat) :
    ((ofText text).position offset).line = lineNumber text (min offset text.length) := by
  rw [← lineAt_ofText, ← length_ofText]
  rfl

theorem lineNumber_le {o o' : Nat} (le : o ≤ o') : lineNumber text o ≤ lineNumber text o' := by
  unfold lineNumber
  have sub : (text.toList.take o).Sublist (text.toList.take o') :=
    (List.take_prefix_take_left le).sublist
  have counted := sub.count_le '\n'
  omega

end LineTable

/-! ## Lines as they are quoted -/

theorem newline_not_mem_textLines {cs line : List Char} (mem : line ∈ textLines cs) :
    '\n' ∉ line := by
  fun_induction textLines cs generalizing line with
  | case1 => cases mem
  | case2 rest ih | case3 rest ih =>
    rcases List.mem_cons.1 mem with rfl | mem
    · exact List.not_mem_nil
    · exact ih mem
  | case4 c rest newline _ none ih =>
    obtain rfl := List.mem_singleton.1 mem
    simpa [eq_comm] using newline
  | case5 c rest newline _ first more cut ih =>
    rw [cut] at ih
    rcases List.mem_cons.1 mem with rfl | mem
    · intro inside
      rcases List.mem_cons.1 inside with same | inside
      · exact newline same.symm
      · exact ih List.mem_cons_self inside
    · exact ih (List.mem_cons_of_mem _ mem)

/-- Where a character stands: `cs` starts at offset `pos`, and the `k`-th of its characters is on
the line that the line ends before it count, as far in as it is behind the start of this line. -/
def StandsAt (pos : Nat) (cs : List Char) (k : Nat) (c : Char) : Prop :=
  ∃ start quoted, (pos :: startsAfter pos cs)[(cs.take k).count '\n']? = some start ∧
    start ≤ pos + k ∧ (textLines cs)[(cs.take k).count '\n']? = some quoted ∧
    quoted[pos + k - start]? = some c

namespace StandsAt

variable {pos k : Nat} {c : Char} {rest : List Char}

/-- A line end in front. -/
theorem newline (h : StandsAt (pos + 1) rest k c) : StandsAt pos ('\n' :: rest) (k + 1) c := by
  obtain ⟨start, line, found, reached, quoted, there⟩ := h
  refine ⟨start, line, ?_, ?_, ?_, ?_⟩
  · simpa [startsAfter] using found
  · omega
  · simpa [textLines] using quoted
  · rw [show pos + (k + 1) - start = pos + 1 + k - start by omega]
    exact there

/-- A line end with a carriage return in front. -/
theorem returned (h : StandsAt (pos + 2) rest k c) :
    StandsAt pos ('\r' :: '\n' :: rest) (k + 2) c := by
  obtain ⟨start, line, found, reached, quoted, there⟩ := h
  refine ⟨start, line, ?_, ?_, ?_, ?_⟩
  · simpa [startsAfter] using found
  · omega
  · simpa [textLines] using quoted
  · rw [show pos + (k + 2) - start = pos + 2 + k - start by omega]
    exact there

section
variable {d : Char} (newline : d ≠ '\n') (returned : ∀ more, d = '\r' → rest ≠ '\n' :: more)
include newline returned

theorem textLines_cons : ∃ line more, textLines (d :: rest) = (d :: line) :: more ∧
    (textLines rest = [] ∧ line = [] ∧ more = [] ∨ textLines rest = line :: more) := by
  rw [textLines.eq_4 d rest newline returned]
  cases textLines rest with
  | nil => exact ⟨[], [], rfl, .inl ⟨rfl, rfl, rfl⟩⟩
  | cons line more => exact ⟨line, more, rfl, .inr rfl⟩

/-- The first character of a line. -/
theorem first : StandsAt pos (d :: rest) 0 d := by
  obtain ⟨line, more, cut, -⟩ := textLines_cons newline returned
  refine ⟨pos, d :: line, rfl, Nat.le_refl pos, ?_, ?_⟩
  · rw [cut]
    rfl
  · rw [Nat.add_zero, Nat.sub_self]
    rfl

/-- A character of a line in front. -/
theorem plain (h : StandsAt (pos + 1) rest k c) : StandsAt pos (d :: rest) (k + 1) c := by
  obtain ⟨start, line, found, reached, quoted, there⟩ := h
  obtain ⟨first, more, cut, same⟩ := textLines_cons newline returned
  obtain ⟨none, -, -⟩ | same := same
  · rw [none] at quoted
    cases quoted
  have counted : ((d :: rest).take (k + 1)).count '\n' = (rest.take k).count '\n' := by
    simp [newline]
  have starts : startsAfter pos (d :: rest) = startsAfter (pos + 1) rest := by
    rw [startsAfter, if_neg newline]
  rw [same] at quoted
  unfold StandsAt
  rw [counted, starts, cut]
  cases line_ : (rest.take k).count '\n' with
  | zero =>
    -- on the first line the character in front moves the others one column on
    rw [line_] at found quoted
    cases found
    cases quoted
    refine ⟨pos, d :: line, rfl, by omega, rfl, ?_⟩
    rw [show pos + (k + 1) - pos = (pos + 1 + k - (pos + 1)) + 1 by omega]
    exact there
  | succ l =>
    rw [line_] at found quoted
    refine ⟨start, line, found, by omega, quoted, ?_⟩
    rw [show pos + (k + 1) - start = pos + 1 + k - start by omega]
    exact there

end

end StandsAt

/-- A character that does not end a line stands in its line. -/
theorem standsAt_of_getElem? {cs : List Char} (pos : Nat) {k : Nat} {c : Char}
    (here : cs[k]? = some c) (plain : c ≠ '\n')
    (kept : ¬(c = '\r' ∧ cs[k + 1]? = some '\n')) : StandsAt pos cs k c := by
  fun_induction textLines cs generalizing pos k with
  | case1 => cases here
  | case2 rest ih =>
    cases k with
    | zero =>
      cases here
      exact absurd rfl plain
    | succ k => exact (ih (pos + 1) here kept).newline
  | case3 rest ih =>
    match k with
    | 0 =>
      cases here
      exact absurd ⟨rfl, rfl⟩ kept
    | 1 =>
      cases here
      exact absurd rfl plain
    | k + 2 => exact (ih (pos + 2) here kept).returned
  | case4 d rest newline returned _ ih | case5 d rest newline returned _ _ _ ih =>
    cases k with
    | zero =>
      cases here
      exact .first newline returned
    | succ k => exact (ih (pos + 1) here kept).plain newline returned

/-- The quoted form of the line of a position has the character at its column. -/
theorem lineText?_position (text : String) {offset : Nat} {c : Char}
    (here : text.toList[offset]? = some c) (plain : c ≠ '\n')
    (kept : ¬(c = '\r' ∧ text.toList[offset + 1]? = some '\n')) :
    ∃ line, lineText? text ((LineTable.ofText text).position offset).line = some line ∧
      line.toList[((LineTable.ofText text).position offset).column - 1]? = some c ∧
      '\n' ∉ line.toList := by
  obtain ⟨start, line, found, reached, quoted, there⟩ := standsAt_of_getElem? 0 here plain kept
  obtain ⟨start', found', back⟩ := LineTable.exists_start text offset
  have inside : offset < text.length := by
    rw [← String.length_toList]
    exact (List.getElem?_eq_some_iff.1 here).1
  rw [Nat.min_eq_left (Nat.le_of_lt inside)] at back
  have on : ((LineTable.ofText text).position offset).line =
      (text.toList.take offset).count '\n' + 1 := by
    rw [LineTable.line_position, Nat.min_eq_left (Nat.le_of_lt inside)]
    rfl
  rw [on] at found' ⊢
  -- the table has one start for the line
  obtain rfl : start = start' := Option.some.inj (found.symm.trans found')
  refine ⟨String.ofList line, ?_, ?_, ?_⟩
  · rw [lineText?, quoted]
    rfl
  · rw [String.toList_ofList, show ((LineTable.ofText text).position offset).column - 1 =
      0 + offset - start by omega]
    exact there
  · rw [String.toList_ofList]
    exact newline_not_mem_textLines (List.mem_of_getElem? quoted)

/-! ## Carets -/

/-- A row of a report, as pieces with or without a colour. -/
abbrev Row := List (Option Ink × String)

namespace Row

/-- A row as it is written. -/
def print (colours : Bool) (row : Row) : String :=
  String.join (row.map fun (ink, piece) => ink.elim piece (·.paint colours piece))

/-- The characters that are seen. -/
def seen (row : Row) : List Char := row.flatMap (·.2.toList)

/-- The row of a quoted line. -/
def quoting (number : Nat) (line : String) : Row :=
  [(some .gutter, toString number ++ " |"), (none, " " ++ line)]

/-- The row of the carets below it. -/
def pointing (m : Mark) : Row :=
  [(some .gutter, fill ' ' (toString m.position.line).length ++ " |"),
    (some .alarm, Diagnostic.underline m)]

theorem print_quoting (colours : Bool) (number : Nat) (line : String) :
    (quoting number line).print colours =
      Ink.gutter.paint colours (toString number ++ " |") ++ (" " ++ line) := by
  simp [print, quoting]

theorem print_pointing (colours : Bool) (m : Mark) :
    (pointing m).print colours =
      Ink.gutter.paint colours (fill ' ' (toString m.position.line).length ++ " |") ++
        Ink.alarm.paint colours (Diagnostic.underline m) := by
  simp [print, pointing]

/-- How far in the text of a quoted line starts. -/
def margin (number : Nat) : Nat := (toString number).length + 3

theorem seen_quoting (number : Nat) (line : String) :
    (quoting number line).seen = ((toString number).toList ++ [' ', '|', ' ']) ++ line.toList := by
  simp [seen, quoting]

theorem getElem?_quoting (number : Nat) (line : String) (i : Nat) :
    (quoting number line).seen[margin number + i]? = line.toList[i]? := by
  have width : ((toString number).toList ++ [' ', '|', ' ']).length = margin number := by
    rw [List.length_append, String.length_toList]
    rfl
  rw [seen_quoting, List.getElem?_append_right (by omega), width, Nat.add_sub_cancel_left]

theorem seen_pointing (m : Mark) :
    (pointing m).seen = (List.replicate (toString m.position.line).length ' ' ++ [' ', '|', ' '] ++
      List.replicate (m.position.column - 1) ' ') ++ List.replicate m.width '^' := by
  simp [seen, pointing, Diagnostic.underline, fill]

theorem newline_not_mem_quoting (number : Nat) {line : String} (one : '\n' ∉ line.toList) :
    '\n' ∉ (quoting number line).seen := by
  have digits : '\n' ∉ (toString number).toList := by
    intro mem
    rw [Nat.toString_eq_ofList_toDigits, String.toList_ofList] at mem
    exact absurd (Nat.isDigit_of_mem_toDigits (by decide) (by decide) mem) (by decide)
  rw [seen_quoting, List.mem_append, List.mem_append, not_or, not_or]
  exact ⟨⟨digits, by decide⟩, one⟩

theorem newline_not_mem_pointing (m : Mark) : '\n' ∉ (pointing m).seen := by
  rw [seen_pointing]
  simp

end Row

namespace Diagnostic

/-- A place with carets ends with the two rows. -/
theorem snippet_eq (colours : Bool) (origin : Origin) {m : Mark} (wide : 0 < m.width) :
    ∃ locator, snippet colours origin m = locator ++ "\n" ++
      (Row.quoting m.position.line ((lineText? origin.text m.position.line).getD "")).print
        colours ++ "\n" ++ (Row.pointing m).print colours ++ "\n" := by
  refine ⟨"  --> " ++ origin.path ++ ":" ++ toString m.position.line ++ ":" ++
    toString m.position.column ++ "\n" ++
    Ink.gutter.paint colours (fill ' ' (toString m.position.line).length ++ " |"), ?_⟩
  unfold snippet
  rw [if_pos wide, Row.print_quoting, Row.print_pointing]
  simp only [← String.append_assoc]

end Diagnostic

/-! ## The main statement -/

end Scriptlet
