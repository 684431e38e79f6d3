import Scriptlet.Proofs.Fault.Sessions
import Scriptlet.Proofs.Positions

/-!
# Underlines

A report quotes the line on which a span starts and puts carets below it, as many as the span has
characters and at least one. `quotedFrom_of_textLines` says which characters of a text a quoted line
has, and so which characters of a span are quoted (`onLineOf_iff`). A span can go on behind the
line, and then so do its carets (`Diagnostic.Underlined`).

The carets of whatever a session reports are as described, as long as the place is in the text that
is shown (`carets_exact_on_one_line`).
-/

namespace Scriptlet

/-! ## The characters of a quoted line -/

/-- In a text that starts at offset `pos`, the characters of a quoted line stand at offset `start`,
and behind them a line end that is not quoted, or the end of the text. -/
structure QuotedFrom (pos : Nat) (cs : List Char) (start : Nat) (quoted : List Char) : Prop where
  reached : pos ≤ start
  split : ∃ rest, cs.drop (start - pos) = quoted ++ rest ∧
    ¬(quoted.getLast? = some '\r' ∧ rest.head? = some '\n')

namespace QuotedFrom

variable {pos start : Nat} {cs quoted : List Char}

theorem empty (pos : Nat) (cs : List Char) : QuotedFrom pos cs pos [] := by
  refine ⟨Nat.le_refl pos, cs, ?_, fun returned => by cases returned.1⟩
  rw [Nat.sub_self]
  rfl

/-- More characters in front. -/
theorem behind (front : List Char) (h : QuotedFrom (pos + front.length) cs start quoted) :
    QuotedFrom pos (front ++ cs) start quoted := by
  obtain ⟨reached, rest, split, ended⟩ := h
  refine ⟨by omega, rest, ?_, ended⟩
  rw [show start - pos = front.length + (start - (pos + front.length)) by omega,
    List.drop_length_add_append, split]

end QuotedFrom

/-- The characters of a quoted line are those that follow its start. -/
theorem quotedFrom_of_textLines {cs quoted : List Char} {pos l start : Nat}
    (cut : (textLines cs)[l]? = some quoted)
    (found : (pos :: startsAfter pos cs)[l]? = some start) :
    QuotedFrom pos cs start quoted := by
  fun_induction textLines cs generalizing pos l start quoted with
  | case1 => cases cut
  | case2 rest ih =>
    cases l with
    | zero =>
      cases cut
      cases found
      exact .empty pos _
    | succ l => exact .behind ['\n'] (ih cut found)
  | case3 rest ih =>
    cases l with
    | zero =>
      cases cut
      cases found
      exact .empty pos _
    | succ l => exact .behind ['\r', '\n'] (ih cut found)
  | case4 d rest newline returned none ih =>
    cases l with
    | zero =>
      cases cut
      cases found
      refine ⟨Nat.le_refl pos, rest, by rw [Nat.sub_self]; rfl, ?_⟩
      rintro ⟨last, next⟩
      obtain ⟨more, rfl⟩ := List.head?_eq_some_iff.1 next
      exact returned more (Option.some.inj last) rfl
    | succ l => cases cut
  | case5 d rest newline returned first more cut' ih =>
    rw [cut'] at ih
    cases l with
    | zero =>
      cases cut
      cases found
      obtain ⟨-, more, split, ended⟩ : QuotedFrom (pos + 1) rest (pos + 1) first :=
        ih (l := 0) rfl rfl
      rw [Nat.sub_self, List.drop_zero] at split
      refine ⟨Nat.le_refl pos, more, by rw [Nat.sub_self, List.drop_zero, split]; rfl, ?_⟩
      rintro ⟨last, next⟩
      cases first with
      | nil =>
        obtain ⟨more, rfl⟩ := List.head?_eq_some_iff.1 next
        exact returned more (Option.some.inj last) split
      | cons c first => exact ended ⟨last, next⟩
    | succ l =>
      rw [startsAfter, if_neg newline] at found
      exact .behind [d] (ih (l := l + 1) cut found)

/-- A character that a quoted line has is not one that ends lines, nor does a line end come before
it on the line. -/
theorem QuotedFrom.plain {cs quoted : List Char} {start o : Nat} (h : QuotedFrom 0 cs start quoted)
    (one : '\n' ∉ quoted) (behind : start ≤ o) (before : o < start + quoted.length) :
    (cs.take o).count '\n' = (cs.take start).count '\n' ∧
      ∃ c, cs[o]? = some c ∧ c ≠ '\n' ∧ ¬(c = '\r' ∧ cs[o + 1]? = some '\n') := by
  obtain ⟨-, rest, split, ended⟩ := h
  rw [Nat.sub_zero] at split
  obtain ⟨k, rfl⟩ := Nat.exists_eq_add_of_le behind
  have short : k < quoted.length := by omega
  have same (j : Nat) : cs[start + j]? = (quoted ++ rest)[j]? := by
    rw [← split, List.getElem?_drop]
  constructor
  · have none : '\n' ∉ quoted.take k := fun mem => one (List.mem_of_mem_take mem)
    rw [List.take_add, List.count_append, split, List.take_append_of_le_length (Nat.le_of_lt short),
      List.count_eq_zero.2 none, Nat.add_zero]
  · have here : cs[start + k]? = some quoted[k] := by
      rw [same, List.getElem?_append_left short, List.getElem?_eq_getElem short]
    refine ⟨quoted[k], here, fun newline => one (newline ▸ List.getElem_mem short), ?_⟩
    rintro ⟨returned, next⟩
    rw [Nat.add_assoc, same] at next
    rcases Nat.lt_or_ge (k + 1) quoted.length with more | last
    · rw [List.getElem?_append_left more] at next
      exact one (List.mem_of_getElem? next)
    · have last : quoted.length = k + 1 := by omega
      rw [List.getElem?_append_right (Nat.le_of_eq last), last, Nat.sub_self,
        ← List.head?_eq_getElem?] at next
      refine ended ⟨?_, next⟩
      rw [List.getLast?_eq_getElem?, last, Nat.add_sub_cancel, List.getElem?_eq_getElem short,
        returned]

section

variable {text : String} {offset start o : Nat}

/-- The line at which an offset is reported, as it is quoted. -/
def quotedAt (text : String) (offset : Nat) : String :=
  (lineText? text ((LineTable.ofText text).position offset).line).getD ""

theorem newline_not_mem_quotedAt (text : String) (offset : Nat) :
    '\n' ∉ (quotedAt text offset).toList := by
  unfold quotedAt
  cases ((LineTable.ofText text).position offset).line with
  | zero => exact List.not_mem_nil
  | succ l =>
    rw [lineText?]
    cases cut : (textLines text.toList)[l]? with
    | none => exact List.not_mem_nil
    | some chars =>
      rw [Option.map_some, Option.getD_some, String.toList_ofList]
      exact newline_not_mem_textLines (List.mem_of_getElem? cut)

/-- An offset is on the line on which another one is, and its character is one of those that the
line is quoted with: it neither ends the line nor is a carriage return before the end. -/
structure OnLineOf (text : String) (offset o : Nat) : Prop where
  line : lineNumber text o = lineNumber text offset
  quoted : ∃ c, text.toList[o]? = some c ∧ c ≠ '\n' ∧
    ¬(c = '\r' ∧ text.toList[o + 1]? = some '\n')

theorem line_position_of_le (inside : offset ≤ text.length) :
    ((LineTable.ofText text).position offset).line = lineNumber text offset := by
  rw [LineTable.line_position, Nat.min_eq_left inside]

theorem OnLineOf.lt_length (on : OnLineOf text offset o) : o < text.length := by
  obtain ⟨c, here, -⟩ := on.quoted
  rw [← String.length_toList]
  exact (List.getElem?_eq_some_iff.1 here).1

/-! An offset in the text, and where the line starts on which it is. -/

variable (inside : offset ≤ text.length)
include inside

theorem OnLineOf.line_eq (on : OnLineOf text offset o) :
    ((LineTable.ofText text).position o).line = ((LineTable.ofText text).position offset).line := by
  rw [line_position_of_le inside, line_position_of_le (Nat.le_of_lt on.lt_length), on.line]

/-- A character of a line stands in the quoted line at its column. -/
theorem OnLineOf.getElem?_quotedAt (on : OnLineOf text offset o) :
    (quotedAt text offset).toList[((LineTable.ofText text).position o).column - 1]? =
      text.toList[o]? := by
  obtain ⟨c, here, plain, kept⟩ := on.quoted
  obtain ⟨quoted, cut, there, -⟩ := lineText?_position text here plain kept
  rw [quotedAt, ← on.line_eq inside, cut, Option.getD_some, there, here]

variable (found : (LineTable.ofText text).start?
  ((LineTable.ofText text).position offset).line = some start)
include found

theorem start_add_column :
    start + ((LineTable.ofText text).position offset).column = offset + 1 := by
  obtain ⟨start', found', back⟩ := LineTable.exists_start text offset
  rw [found] at found'
  cases found'
  rw [back, Nat.min_eq_left inside]

theorem OnLineOf.start_add_column (on : OnLineOf text offset o) :
    start + ((LineTable.ofText text).position o).column = o + 1 :=
  Scriptlet.start_add_column (Nat.le_of_lt on.lt_length) ((on.line_eq inside).symm ▸ found)

theorem start_le : start ≤ offset := by
  have column := start_add_column inside found
  have one := LineTable.one_le_column text offset
  omega

/-- A line starts on itself. -/
theorem lineNumber_start : lineNumber text start = lineNumber text offset := by
  have before := LineTable.lineNumber_le text (start_le inside found)
  obtain ⟨l, next⟩ : ∃ l, lineNumber text offset = l + 1 := ⟨_, rfl⟩
  rw [line_position_of_le inside, next] at found
  have counted := (countP_le_of_ascending (LineTable.starts_ascending text) start found).1
    (Nat.le_refl start)
  rw [← LineTable.lineAt_eq_countP, LineTable.lineAt_ofText] at counted
  omega

/-- The quoted characters are those behind the start of the line, as many as the quoted line has. -/
theorem onLineOf_iff (o : Nat) :
    OnLineOf text offset o ↔ start ≤ o ∧ o < start + (quotedAt text offset).length := by
  constructor
  · intro on
    obtain ⟨c, there, -⟩ := on.quoted
    have short := (List.getElem?_eq_some_iff.1 ((on.getElem?_quotedAt inside).trans there)).1
    have column := on.start_add_column inside found
    have one := LineTable.one_le_column text o
    rw [String.length_toList] at short
    omega
  · rintro ⟨behind, before⟩
    -- the line is there, or it would be quoted without characters
    cases cut : lineText? text ((LineTable.ofText text).position offset).line with
    | none =>
      rw [quotedAt, cut] at before
      exact absurd before (Nat.not_lt.2 behind)
    | some quoted =>
      rw [quotedAt, cut, Option.getD_some, ← String.length_toList] at before
      have start := lineNumber_start inside found
      obtain ⟨l, next⟩ : ∃ l, ((LineTable.ofText text).position offset).line = l + 1 :=
        ⟨_, line_position_of_le inside⟩
      rw [next] at found cut
      obtain ⟨chars, there, rfl⟩ := Option.map_eq_some_iff.1 cut
      rw [String.toList_ofList] at before
      obtain ⟨counted, plain⟩ := (quotedFrom_of_textLines there found).plain
        (newline_not_mem_textLines (List.mem_of_getElem? there)) behind before
      exact ⟨(congrArg (· + 1) counted).trans start, plain⟩

end

/-! ## Carets under them -/

namespace Row

/-- The row of carets has nothing else behind its margin and the columns that are passed. -/
theorem pointing_split (m : Mark) : ∃ lead, (pointing m).seen = lead ++ List.replicate m.width '^' ∧
    '^' ∉ lead ∧ lead.length = margin m.position.line + (m.position.column - 1) := by
  refine ⟨_, seen_pointing m, by simp, ?_⟩
  simp [margin]
  omega

theorem caret_iff (m : Mark) (i : Nat) : (pointing m).seen[i]? = some '^' ↔
    margin m.position.line + (m.position.column - 1) ≤ i ∧
      i < margin m.position.line + (m.position.column - 1) + m.width := by
  obtain ⟨lead, seen, blank, length⟩ := pointing_split m
  rw [seen, ← length]
  rcases Nat.lt_or_ge i lead.length with left | right
  · rw [List.getElem?_append_left left]
    have other : lead[i]? ≠ some '^' := fun caret => blank (List.mem_of_getElem? caret)
    exact iff_of_false other (by omega)
  · rw [List.getElem?_append_right right, List.getElem?_replicate]
    simp
    omega

theorem count_pointing (m : Mark) : (pointing m).seen.count '^' = m.width := by
  obtain ⟨lead, seen, blank, -⟩ := pointing_split m
  rw [seen, List.count_append, List.count_eq_zero.2 blank, List.count_replicate_self, Nat.zero_add]

theorem length_pointing (m : Mark) : (pointing m).seen.length =
    margin m.position.line + (m.position.column - 1) + m.width := by
  obtain ⟨lead, seen, -, length⟩ := pointing_split m
  rw [seen, List.length_append, List.length_replicate, length]

theorem length_quoting (number : Nat) (line : String) :
    (quoting number line).seen.length = margin number + line.length := by
  rw [seen_quoting, List.length_append, List.length_append, String.length_toList,
    String.length_toList]
  rfl

end Row

/-- Where a character of a text stands in a row that quotes its line, and a caret below it. -/
def placeInRow (text : String) (o : Nat) : Nat :=
  let p := (LineTable.ofText text).position o
  Row.margin p.line + (p.column - 1)

/-- A character of a span is on the line that is quoted for the span. -/
def Span.Quotes (text : String) (span : Span) (o : Nat) : Prop :=
  span.contains o = true ∧ OnLineOf text span.start o

/-- Carets stand under exactly those characters of a span that are quoted; if none is, there is one
caret. -/
def Row.UnderlinesExactly (pointing : Row) (text : String) (span : Span) : Prop :=
  (∀ i, pointing.seen[i]? = some '^' ↔ ∃ o, span.Quotes text o ∧ i = placeInRow text o) ∨
    (∀ o, ¬ span.Quotes text o) ∧ pointing.seen.count '^' = 1

/-- A report shows a line and the carets for a span below it: as many in a row as the span has
characters, or one, from under its first character on. They miss no character that is quoted. They
stand under nothing else if the span has one character or is all on the line, and otherwise they go
on behind the end of the line. -/
structure Diagnostic.Underlined (d : Diagnostic) (origin : Origin) (span : Span)
    (quoting pointing : Row) : Prop where
  shown : ∀ colours, ∃ locator, d.place colours (some origin) =
    locator ++ "\n" ++ quoting.print colours ++ "\n" ++ pointing.print colours ++ "\n"
  quotingEnds : '\n' ∉ quoting.seen
  pointingEnds : '\n' ∉ pointing.seen
  carets : ∀ i, pointing.seen[i]? = some '^' ↔ placeInRow origin.text span.start ≤ i ∧
    i < placeInRow origin.text span.start + max span.length 1
  covered : ∀ o, span.Quotes origin.text o →
    quoting.seen[placeInRow origin.text o]? = origin.text.toList[o]? ∧
    pointing.seen[placeInRow origin.text o]? = some '^'
  exactly : pointing.UnderlinesExactly origin.text span ↔
    span.length ≤ 1 ∨ ∀ o, span.contains o = true → OnLineOf origin.text span.start o
  beyond : ¬ pointing.UnderlinesExactly origin.text span →
    quoting.seen.length < pointing.seen.length

/-! ## What is reported -/

section

variable {text : String} {span : Span} {start : Nat}

/-- The place that a report of a span marks. -/
def Span.mark (text : String) (span : Span) : Mark :=
  ⟨(LineTable.ofText text).position span.start, max span.length 1⟩

/-- A character on the line of another stands as far in as it is behind the start of the line. -/
theorem placeInRow_of_onLineOf {offset o : Nat} (inside : offset ≤ text.length)
    (found : (LineTable.ofText text).start? ((LineTable.ofText text).position offset).line =
      some start) (on : OnLineOf text offset o) :
    placeInRow text o =
      Row.margin ((LineTable.ofText text).position offset).line + (o - start) := by
  have column := on.start_add_column inside found
  show Row.margin ((LineTable.ofText text).position o).line + _ = _
  rw [on.line_eq inside]
  omega

section

variable (inside : span.start ≤ text.length)
  (found : (LineTable.ofText text).start? (span.mark text).position.line = some start)
include inside found

theorem column_mark : (span.mark text).position.column - 1 = span.start - start := by
  have column : start + (span.mark text).position.column = span.start + 1 :=
    start_add_column inside found
  omega

/-- The carets are where the characters of the span would be if the line went on, or where its
first one would be. -/
theorem caret_mark_iff (i : Nat) : (Row.pointing (span.mark text)).seen[i]? = some '^' ↔
    ∃ o, span.start ≤ o ∧ o < span.start + max span.length 1 ∧
      i = Row.margin (span.mark text).position.line + (o - start) := by
  have before : start ≤ span.start := start_le inside found
  have column := column_mark inside found
  rw [Row.caret_iff, column, show (span.mark text).width = max span.length 1 from rfl]
  constructor
  · rintro ⟨left, right⟩
    exact ⟨start + (i - Row.margin (span.mark text).position.line), by omega, by omega, by omega⟩
  · rintro ⟨o, left, right, rfl⟩
    omega

/-- If the carets are exact and there are more than one, what they stand under is quoted. -/
theorem onLineOf_of_underlinesExactly
    (exactly : (Row.pointing (span.mark text)).UnderlinesExactly text span) (long : 1 < span.length)
    {o : Nat} (mem : span.contains o = true) : OnLineOf text span.start o := by
  have before : start ≤ span.start := start_le inside found
  have length : span.length = span.stop - span.start := rfl
  obtain ⟨left, right⟩ := (Span.contains_iff _ _).1 mem
  rcases exactly with exactly | ⟨-, single⟩
  · -- the caret for this character stands under a character that is quoted, which is this one
    have caret := (caret_mark_iff inside found _).2 ⟨o, left, by omega, rfl⟩
    obtain ⟨o', ⟨mem', on⟩, same⟩ := (exactly _).1 caret
    obtain ⟨left', -⟩ := (Span.contains_iff _ _).1 mem'
    have column := placeInRow_of_onLineOf inside found on
    rw [show (LineTable.ofText text).position span.start = (span.mark text).position from rfl]
      at column
    obtain rfl : o = o' := by omega
    exact on
  · have count : (Row.pointing (span.mark text)).seen.count '^' = max span.length 1 :=
      Row.count_pointing _
    omega

/-- If some character of a span is quoted, and all are or there is no other, then the carets stand
under those that are. -/
theorem carets_iff_quotes {o₀ : Nat} (some_ : span.Quotes text o₀)
    (all : span.length ≤ 1 ∨ ∀ o, span.contains o = true → OnLineOf text span.start o) (i : Nat) :
    (Row.pointing (span.mark text)).seen[i]? = some '^' ↔
      ∃ o, span.Quotes text o ∧ i = placeInRow text o := by
  have length : span.length = span.stop - span.start := rfl
  have placed {o : Nat} (on : OnLineOf text span.start o) : placeInRow text o =
      Row.margin (span.mark text).position.line + (o - start) :=
    placeInRow_of_onLineOf inside found on
  obtain ⟨left₀, right₀⟩ := (Span.contains_iff _ _).1 some_.1
  rw [caret_mark_iff inside found]
  constructor
  · rintro ⟨o, left, right, same⟩
    rcases all with short | all
    · obtain rfl : o = o₀ := by omega
      exact ⟨o, some_, same.trans (placed some_.2).symm⟩
    · have mem : span.contains o = true := (Span.contains_iff _ _).2 ⟨left, by omega⟩
      exact ⟨o, ⟨mem, all o mem⟩, same.trans (placed (all o mem)).symm⟩
  · rintro ⟨o, ⟨mem, on⟩, same⟩
    obtain ⟨left, right⟩ := (Span.contains_iff _ _).1 mem
    exact ⟨o, left, by omega, same.trans (placed on)⟩

theorem underlinesExactly_iff : (Row.pointing (span.mark text)).UnderlinesExactly text span ↔
    span.length ≤ 1 ∨ ∀ o, span.contains o = true → OnLineOf text span.start o := by
  constructor
  · intro exactly
    rcases Nat.lt_or_ge 1 span.length with long | short
    · exact .inr fun o => onLineOf_of_underlinesExactly inside found exactly long
    · exact .inl short
  · intro all
    by_cases some_ : ∃ o, span.Quotes text o
    · obtain ⟨o₀, some_⟩ := some_
      exact .inl (carets_iff_quotes inside found some_ all)
    · refine .inr ⟨not_exists.1 some_, (Row.count_pointing _).trans (Nat.max_eq_right ?_)⟩
      rcases all with short | all
      · exact short
      · -- a span with characters has a first one
        have empty : ¬ span.contains span.start = true := fun mem => some_ ⟨_, mem, all _ mem⟩
        have length : span.length = span.stop - span.start := rfl
        rw [Span.contains_iff] at empty
        omega

/-- Whatever is not on the quoted line makes the carets go on behind its end. -/
theorem length_lt_of_not_underlinesExactly
    (inexact : ¬ (Row.pointing (span.mark text)).UnderlinesExactly text span) :
    (Row.quoting (span.mark text).position.line (quotedAt text span.start)).seen.length <
      (Row.pointing (span.mark text)).seen.length := by
  have before : start ≤ span.start := start_le inside found
  have column := column_mark inside found
  rw [underlinesExactly_iff inside found, not_or] at inexact
  obtain ⟨long, missed⟩ := inexact
  obtain ⟨o, missed⟩ := not_forall.1 missed
  obtain ⟨mem, off⟩ := Classical.not_imp.1 missed
  obtain ⟨left, right⟩ := (Span.contains_iff _ _).1 mem
  rw [onLineOf_iff inside found] at off
  rw [Row.length_quoting, Row.length_pointing, column,
    show (span.mark text).width = max (span.stop - span.start) 1 from rfl]
  omega

end

theorem Diagnostic.underlined_of_inside {d : Diagnostic} (located : d.span = some span)
    (inside : span.start ≤ text.length) (path : String) :
    d.Underlined ⟨path, text⟩ span
      (Row.quoting (span.mark text).position.line (quotedAt text span.start))
      (Row.pointing (span.mark text)) := by
  have wide : 0 < (span.mark text).width := Nat.le_max_right span.length 1
  have marked : d.mark? text = some (span.mark text) := by
    unfold mark?
    rw [located]
    rfl
  obtain ⟨start, found, -⟩ := LineTable.exists_start text span.start
  exact {
    shown := fun colours => by
      obtain ⟨locator, written⟩ := snippet_eq colours ⟨path, text⟩ wide
      refine ⟨locator, ?_⟩
      show ((d.mark? text).map (snippet colours ⟨path, text⟩)).getD "" = _
      rw [marked]
      exact written
    quotingEnds := Row.newline_not_mem_quoting _ (newline_not_mem_quotedAt text span.start)
    pointingEnds := Row.newline_not_mem_pointing _
    carets := Row.caret_iff (span.mark text)
    covered := fun o quotes => by
      obtain ⟨mem, on⟩ := quotes
      obtain ⟨left, right⟩ := (Span.contains_iff _ _).1 mem
      have length : span.length = span.stop - span.start := rfl
      constructor
      · rw [placeInRow, on.line_eq inside]
        exact (Row.getElem?_quoting _ _ _).trans (on.getElem?_quotedAt inside)
      · refine (caret_mark_iff inside found _).2 ⟨o, left, by omega, ?_⟩
        exact placeInRow_of_onLineOf inside found on
    exactly := underlinesExactly_iff inside found
    beyond := length_lt_of_not_underlinesExactly inside found }

end

/-- **What is underlined.** Whatever texts a session has run, what it reports of the next one shows
the line on which the place starts, and carets from its first character on, under each of its
characters on this line. They stand under nothing else exactly if the place has at most one
character or is all on this line; if it goes on, so do they, behind the end of the line. Left out
are places beyond the end of the text, which faults in the code of an earlier text can have. -/
theorem carets_exact_on_one_line (mode : Mode) (console : Console) (clock : Clock)
    (earlier : List String) (text path : String) :
    let s := (Session.start mode console clock).serveAll (earlier.map .text)
    ∀ d ∈ (s.run text).1.diagnostics, ∀ span, d.span = some span →
      (∃ quoting pointing, d.Underlined ⟨path, text⟩ span quoting pointing) ∨
      (text.length < span.start ∧ (∃ f, (s.run text).1 = .stopped (.fault f)) ∧
        span.KeptFrom mode earlier) := by
  intro s d reported span at_
  obtain ⟨sameMode, host, code⟩ : s.mode = mode ∧ s.host = Host.none ∧
      s.machine.heap.CodeIn (Span.KeptFrom mode earlier) :=
    Session.codeIn_serveAll Host.unplaced_none (codeIn_start _ console clock) fun _ kept => kept
  rcases Nat.lt_or_ge text.length span.start with beyond | inside
  · refine .inr ⟨beyond, ?_⟩
    rcases Session.place_of_report (host ▸ Host.unplaced_none) code reported at_ with own | stale
    · have fits := own.fits
      exact absurd (Nat.le_trans fits.1 fits.2) (Nat.not_le.2 beyond)
    · exact ⟨stale.2, stale.1⟩
  · exact .inl ⟨_, _, Diagnostic.underlined_of_inside at_ inside path⟩

/-- Two operands that cannot be added, on a line each. -/
def brokenSum : String := "1 +\nnull;"

/-- Five of the eight carets are behind the first line. -/
theorem broken_sum_underlined :
    let s := (Session.start .file {} (.still 0)).serveAll ([].map .text)
    let origin : Origin := ⟨"main.simp", brokenSum⟩
    ∃ d quoting pointing, (s.run brokenSum).1.diagnostics = [d] ∧ d.span = some ⟨0, 8⟩ ∧
      d.place false (some origin) = "  --> main.simp:1:1\n  |\n1 | 1 +\n  | ^^^^^^^^\n" ∧
      d.Underlined origin ⟨0, 8⟩ quoting pointing ∧
      ¬ pointing.UnderlinesExactly brokenSum ⟨0, 8⟩ ∧
      quoting.seen.length < pointing.seen.length := by
  intro s origin
  have reports : (s.run brokenSum).1.diagnostics.map
      (fun d => (d.span, d.place false (some origin))) =
      [(some ⟨0, 8⟩, "  --> main.simp:1:1\n  |\n1 | 1 +\n  | ^^^^^^^^\n")] := by
    decide +kernel
  obtain ⟨d, rest, reported, report, none⟩ := List.map_eq_cons_iff.1 reports
  obtain ⟨at_, place⟩ := Prod.mk.inj report
  rw [List.map_eq_nil_iff.1 none] at reported
  have own : d ∈ (s.run brokenSum).1.diagnostics := reported ▸ List.mem_singleton_self d
  rcases carets_exact_on_one_line .file {} (.still 0) [] brokenSum "main.simp" d own _ at_ with
    ⟨quoting, pointing, underlined⟩ | ⟨beyond, -⟩
  · have inexact : ¬ pointing.UnderlinesExactly brokenSum ⟨0, 8⟩ := by
      rw [underlined.exactly]
      rintro (short | all)
      · exact absurd short (by decide)
      · obtain ⟨c, newline, plain, -⟩ := (all 3 (by decide)).quoted
        exact plain (Option.some.inj newline).symm
    exact ⟨d, quoting, pointing, reported, at_, place, underlined, inexact,
      underlined.beyond inexact⟩
  · exact absurd beyond (by decide)

end Scriptlet
