import Scriptlet.Proofs.Token.Rescan

/-!
# Where a line end cuts

A line end between two texts cuts the scan of the whole exactly if the first text leaves no literal
open (`lines_scanned_apart_iff`). One direction is that every other token ends at a line end
(`scan_append_line`). For the other one, a literal that is open at the end of its text takes the
line end and what follows, so it is a different token in the whole (`extent_of_open`).
-/

namespace Scriptlet

/-- A literal without its closing quote takes all there is. -/
theorem eq_nil_of_open {c : Char} {rest : List Char} {more : Nat}
    (found : extent c rest = some (.textLiteral, more))
    (open_ : isClosed (c :: rest.take more) = false) : rest.drop more = [] :=
  Classical.byContradiction fun behind =>
    absurd (isClosed_of_drop_ne_nil found behind rfl) (by simp [open_])

/-- In front of a line end it takes the line end too. -/
theorem extent_of_open {c : Char} {rest more' : List Char} {more : Nat}
    (found : extent c rest = some (.textLiteral, more))
    (open_ : isClosed (c :: rest.take more) = false) :
    ∃ longer, extent c (rest ++ '\n' :: more') = some (.textLiteral, longer) ∧ more < longer := by
  obtain ⟨rfl, rfl⟩ := quote_of_extent found
  have all : rest.take (textExtent rest) = rest := by
    have split := List.take_append_drop (textExtent rest) rest
    rwa [eq_nil_of_open found open_, List.append_nil] at split
  have inside : '"' ∉ rest := by
    rw [all] at open_
    simpa [isClosed] using open_
  refine ⟨textExtent (rest ++ '\n' :: more'), by rw [extent, if_pos rfl], ?_⟩
  rw [textExtent_open inside]
  by_cases closed : '"' ∈ more'
  · obtain ⟨front, after, rfl, before⟩ := List.eq_append_cons_of_mem closed
    rw [← List.cons_append, ← List.append_assoc, textExtent_closed (by simp [inside, before]),
      List.length_append, List.length_cons]
    omega
  · rw [textExtent_open (by simp [inside, closed])]
    simp

/-- Only an open literal is reported as one. -/
theorem open_of_mem_problemsOf {kind : TokenKind} {lexeme : List Char} {pos line : Nat}
    {e : ScanError} (mem : e ∈ problemsOf kind lexeme pos line)
    (cause : e.cause = .unterminatedText) : kind = .textLiteral ∧ isClosed lexeme = false := by
  unfold problemsOf at mem
  cases kind <;> try cases mem
  case textLiteral =>
    refine ⟨rfl, ?_⟩
    cases closed : isClosed lexeme with
    | false => rfl
    | true => simp [closed] at mem
  case numberLiteral =>
    dsimp only at mem
    rcases List.mem_append.1 mem with mem | mem
    · obtain ⟨i, -, rfl⟩ := List.mem_map.1 mem
      cases cause
    · split at mem
      · cases mem
      · rw [List.mem_singleton.1 mem] at cause
        cases cause

/-- A literal that a text leaves open is not among the tokens of the text and a further line. -/
theorem scanFrom_open (cs : List Char) (pos line : Nat) (cs' : List Char) {e : ScanError}
    (mem : e ∈ Scanned.problems (scanFrom cs pos line)) (cause : e.cause = .unterminatedText)
    (later : List Token) :
    Scanned.tokens (scanFrom (cs ++ '\n' :: cs') pos line) ≠
      (Scanned.tokens (scanFrom cs pos line)).dropLast ++ later := by
  fun_induction scanFrom cs pos line with
  | case1 pos line => cases mem
  | case2 pos line c rest gap ih =>
    rw [List.cons_append, scanFrom, if_pos gap]
    exact ih mem
  | case3 pos line c rest gap none ih =>
    rw [Scanned.problems_record] at mem
    rw [List.cons_append, scanFrom, if_neg gap, extent_eq_none_exchange none,
      Scanned.tokens_record, Scanned.tokens_record]
    rcases List.mem_cons.1 mem with rfl | mem
    · cases cause
    · exact ih mem
  | case4 pos line c rest gap kind more found lexeme token ih =>
    have more' : Scanned.tokens (scanFrom (rest.drop more) (pos + lexeme.length)
        (line + lexeme.count '\n')) ≠ [] := by
      simpa [Scanned.tokens] using scanFrom_ne_nil _ _ _
    show _ ≠ (token :: Scanned.tokens (scanFrom (rest.drop more) (pos + lexeme.length)
      (line + lexeme.count '\n'))).dropLast ++ later
    rw [List.dropLast_cons_of_ne_nil more', List.cons_append]
    by_cases open_ : kind = .textLiteral ∧ isClosed lexeme = false
    · -- the token reaches further in the whole
      obtain ⟨rfl, open_⟩ := open_
      obtain ⟨longer, reach, lt⟩ := @extent_of_open c rest cs' more found open_
      have short := extent_le found
      have long := extent_le reach
      rw [List.cons_append, scanFrom, if_neg gap, reach]
      intro same
      have stops := congrArg (fun t : Token => t.span.stop) (List.cons.inj same).1
      simp only [token, lexeme, List.length_cons, List.length_take_of_le short,
        List.length_take_of_le long] at stops
      omega
    · -- the token is the same in the whole, and the open literal stands behind it
      have closed (text : kind = .textLiteral) : isClosed lexeme = true := by
        cases h : isClosed lexeme with
        | true => rfl
        | false => exact absurd ⟨text, h⟩ open_
      rcases List.mem_append.1 mem with own | mem
      · exact absurd (open_of_mem_problemsOf own cause) open_
      · rw [← List.cons_append, scanFrom_token_append gap found closed]
        intro same
        exact ih mem (List.cons.inj same).2

/-- A scan without its last token is a scan without its end token. -/
theorem dropLast_tokens (text : String) :
    (Scanned.tokens (scan text)).dropLast = bodyTokens text := by
  obtain ⟨body, line, same, inside⟩ := ends_scanFrom text.toList 0 1
  rw [bodyTokens, scan, same, List.dropLast_concat, List.filter_append,
    List.filter_eq_self.2 fun t mem => by simpa using inside t mem]
  simp [Token.ending]

/-- **A line end cuts a scan** in two, exactly if no literal is left open in front of it. Then the
tokens of two texts on separate lines are those of the first, without its end token, and those of
the second, moved by the characters and the lines of the first; and so are the problems. -/
theorem lines_scanned_apart_iff (first second : String) :
    (∀ e ∈ Scanned.problems (scan first), e.cause ≠ .unterminatedText) ↔
      let chars := first.length + 1
      let lines := first.toList.count '\n' + 1
      let whole := scan (first ++ "\n" ++ second)
      Scanned.tokens whole =
          bodyTokens first ++ (Scanned.tokens (scan second)).map (Token.shift chars lines) ∧
        Scanned.problems whole = Scanned.problems (scan first) ++
          (Scanned.problems (scan second)).map (ScanError.shift chars lines) := by
  rw [← dropLast_tokens]
  constructor
  · exact scan_append_line first second
  · rintro ⟨tokens, -⟩ e mem cause
    have cut : scan (first ++ "\n" ++ second) =
        scanFrom (first.toList ++ '\n' :: second.toList) 0 1 :=
      congrArg (scanFrom · 0 1) (by simp)
    rw [cut] at tokens
    exact scanFrom_open first.toList 0 1 second.toList mem cause _ tokens

end Scriptlet
