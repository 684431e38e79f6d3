import Scriptlet.Proofs.Token.Coverage

/-!
# Scanning line by line

A line end closes every token but an open text literal, so scanning two texts with a line end
between them gives the tokens of the first, without its end token, and then those of the second, and
so for the problems (`scanFrom_join`). The tokens of the second are those it has alone, moved behind
the first (`scanFrom_shift`).
-/

namespace Scriptlet

/-! ## Moving -/

/-- A span further on in the text. -/
def Span.shift (chars : Nat) (s : Span) : Span := ⟨s.start + chars, s.stop + chars⟩

/-- A token further on in the text. -/
def Token.shift (chars lines : Nat) (t : Token) : Token :=
  { t with line := t.line + lines, span := t.span.shift chars }

/-- A problem further on in the text. -/
def ScanError.shift (chars lines : Nat) (e : ScanError) : ScanError :=
  { e with line := e.line + lines, span := e.span.shift chars }

/-- A token further on in the text, with its problems. -/
def Scanned.shift (chars lines : Nat) (s : Scanned) : Scanned :=
  ⟨s.errors.map (ScanError.shift chars lines), s.token.shift chars lines⟩

theorem surplusPoints_shift (pos chars : Nat) (seen : Bool) (cs : List Char) :
    surplusPoints (pos + chars) seen cs = (surplusPoints pos seen cs).map (· + chars) := by
  induction cs generalizing pos seen with
  | nil => rfl
  | cons c rest ih =>
    have next := ih (pos + 1)
    rw [show pos + 1 + chars = pos + chars + 1 by omega] at next
    simp only [surplusPoints, next]
    split
    · split <;> rfl
    · rfl

theorem problemsOf_shift (kind : TokenKind) (lexeme : List Char) (pos line chars lines : Nat) :
    problemsOf kind lexeme (pos + chars) (line + lines) =
      (problemsOf kind lexeme pos line).map (ScanError.shift chars lines) := by
  have span : (⟨pos + chars, pos + chars + lexeme.length⟩ : Span) =
      Span.shift chars ⟨pos, pos + lexeme.length⟩ := by
    simp [Span.shift]
    omega
  unfold problemsOf
  rw [span]
  split
  · split <;> rfl
  · have points (at_ : Nat) : (⟨at_ + chars, at_ + chars + 1⟩ : Span) =
        Span.shift chars ⟨at_, at_ + 1⟩ := by
      simp [Span.shift]
      omega
    rw [List.map_append, surplusPoints_shift, List.map_map, List.map_map]
    simp only [Function.comp_def, points]
    split <;> rfl
  · rfl

theorem record_shift (e : ScanError) (scanned : List Scanned) (chars lines : Nat) :
    (Scanned.record e scanned).map (Scanned.shift chars lines) =
      Scanned.record (e.shift chars lines) (scanned.map (Scanned.shift chars lines)) := by
  cases scanned <;> rfl

/-- A text further on gives the same tokens and problems further on. -/
theorem scanFrom_shift (cs : List Char) (pos line chars lines : Nat) :
    scanFrom cs (pos + chars) (line + lines) =
      (scanFrom cs pos line).map (Scanned.shift chars lines) := by
  fun_induction scanFrom cs pos line with
  | case1 pos line => rw [scanFrom]; rfl
  | case2 pos line c rest gap ih =>
    simp only [dite_eq_ite] at ih
    rw [scanFrom, if_pos gap, ← ih, show pos + chars + 1 = pos + 1 + chars by omega]
    congr 1
    split <;> omega
  | case3 pos line c rest gap none ih =>
    rw [scanFrom, if_neg gap, none, record_shift, ← ih,
      show pos + chars + 1 = pos + 1 + chars by omega]
    rfl
  | case4 pos line c rest gap kind more found lexeme token ih =>
    have stop : pos + chars + lexeme.length = pos + lexeme.length + chars := by omega
    have after : line + lines + lexeme.count '\n' = line + lexeme.count '\n' + lines := by omega
    rw [scanFrom, if_neg gap, found]
    show ⟨problemsOf kind lexeme _ _, _⟩ :: scanFrom (rest.drop more)
      (pos + chars + lexeme.length) (line + lines + lexeme.count '\n') = _
    rw [stop, after, ih, problemsOf_shift]
    rfl

theorem Scanned.tokens_shift (scanned : List Scanned) (chars lines : Nat) :
    Scanned.tokens (scanned.map (Scanned.shift chars lines)) =
      (Scanned.tokens scanned).map (Token.shift chars lines) := by
  simp [Scanned.tokens, Scanned.shift]

theorem Scanned.problems_shift (scanned : List Scanned) (chars lines : Nat) :
    Scanned.problems (scanned.map (Scanned.shift chars lines)) =
      (Scanned.problems scanned).map (ScanError.shift chars lines) := by
  simp [Scanned.problems, Scanned.shift, List.flatMap_map, List.map_flatMap]

/-! ## Joining -/

/-- Whether a token starts is decided by its first character. -/
theorem extent_eq_none_exchange {c : Char} {rest : List Char} (h : extent c rest = none)
    (rest' : List Char) : extent c rest' = none := by
  have quote : c ≠ '"' := by
    rintro rfl
    rw [extent, if_pos rfl] at h
    cases h
  cases single : singleKind c with
  | some kind =>
    unfold extent at h
    rw [if_neg quote] at h
    split at h
    · cases h
    · split at h
      · cases h
      · rw [single] at h
        cases h
  | none =>
    rw [extent_of_plain quote single] at h ⊢
    by_cases digit : c.isDigit
    · rw [if_pos digit] at h
      cases h
    · rw [if_neg digit] at h ⊢
      by_cases word : isWordStart c
      · rw [if_pos word] at h
        cases h
      · rw [if_neg word]

/-- A token that does not run into the end of its text as an open literal is cut in the same way
when a further line follows. -/
theorem extent_append_newline {c : Char} {rest more' : List Char} {kind : TokenKind} {more : Nat}
    (h : extent c rest = some (kind, more))
    (closed : kind = .textLiteral → isClosed (c :: rest.take more) = true) :
    extent c (rest ++ '\n' :: more') = some (kind, more) := by
  have le := extent_le h
  have length : (rest.take more).length = more := List.length_take_of_le le
  have cut : extent c (rest.take more ++ rest.drop more) =
      some (kind, (rest.take more).length) := by
    rw [List.take_append_drop, length, h]
  have exchanged : extent c (rest.take more ++ (rest.drop more ++ '\n' :: more')) =
      some (kind, (rest.take more).length) := by
    refine extent_exchange cut fun d next => ?_
    cases tail : rest.drop more with
    | nil =>
      rw [tail] at next
      cases next
      exact .inr ⟨rfl, fun text => by simpa [isClosed] using closed text⟩
    | cons e after =>
      rw [tail] at next
      exact .inl next
  rwa [← List.append_assoc, List.take_append_drop, length] at exchanged

theorem isClosed_of_problemsOf {lexeme : List Char} {pos line : Nat}
    (closed : ∀ e ∈ problemsOf .textLiteral lexeme pos line, e.cause ≠ .unterminatedText) :
    isClosed lexeme = true := by
  cases h : isClosed lexeme with
  | true => rfl
  | false =>
    have recorded : ⟨.unterminatedText, ⟨pos, pos + lexeme.length⟩, line⟩ ∈
        problemsOf .textLiteral lexeme pos line := by
      simp [problemsOf, h]
    exact absurd rfl (closed _ recorded)

/-- The first token of a text is the same when a further line follows the text. -/
theorem scanFrom_token_append {c : Char} {rest : List Char} {kind : TokenKind} {more : Nat}
    (gap : ¬ isGap c = true) (found : extent c rest = some (kind, more))
    (closed : kind = .textLiteral → isClosed (c :: rest.take more) = true) (pos line : Nat)
    (cs' : List Char) :
    scanFrom ((c :: rest) ++ '\n' :: cs') pos line =
      let lexeme := c :: rest.take more
      let token : Token :=
        ⟨kind, String.ofList lexeme, line, literalOf kind lexeme, ⟨pos, pos + lexeme.length⟩⟩
      ⟨problemsOf kind lexeme pos line, token⟩ ::
        scanFrom (rest.drop more ++ '\n' :: cs') (pos + lexeme.length)
          (line + lexeme.count '\n') := by
  have le := extent_le found
  have takes : (rest ++ '\n' :: cs').take more = rest.take more :=
    List.take_append_of_le_length le
  have drops : (rest ++ '\n' :: cs').drop more = rest.drop more ++ '\n' :: cs' :=
    List.drop_append_of_le_length le
  rw [List.cons_append, scanFrom, if_neg gap, extent_append_newline found closed]
  simp only [takes, drops]

/-- Scanning goes through a line end between two texts, unless it lies inside a literal that the
first text leaves open. -/
theorem scanFrom_join (cs : List Char) (pos line : Nat) (cs' : List Char)
    (closed : ∀ e ∈ Scanned.problems (scanFrom cs pos line), e.cause ≠ .unterminatedText) :
    let later := scanFrom cs' (pos + cs.length + 1) (line + cs.count '\n' + 1)
    Scanned.tokens (scanFrom (cs ++ '\n' :: cs') pos line) =
        (Scanned.tokens (scanFrom cs pos line)).dropLast ++ Scanned.tokens later ∧
      Scanned.problems (scanFrom (cs ++ '\n' :: cs') pos line) =
        Scanned.problems (scanFrom cs pos line) ++ Scanned.problems later := by
  fun_induction scanFrom cs pos line with
  | case1 pos line =>
    rw [List.nil_append, scanFrom, if_pos (by decide)]
    exact ⟨rfl, rfl⟩
  | case2 pos line c rest gap ih =>
    simp only [dite_eq_ite] at ih closed
    have after : line + (c :: rest).count '\n' + 1 =
        (if c = '\n' then line + 1 else line) + rest.count '\n' + 1 := by
      rw [List.count_cons]
      by_cases newline : c = '\n'
      · simp [newline]
        omega
      · simp [newline]
    rw [List.cons_append, scanFrom, if_pos gap, after, List.length_cons,
      show pos + (rest.length + 1) + 1 = pos + 1 + rest.length + 1 by omega]
    exact ih closed
  | case3 pos line c rest gap none ih =>
    have notNewline : c ≠ '\n' := by
      rintro rfl
      exact gap (by decide)
    rw [Scanned.problems_record] at closed
    obtain ⟨tokens, problems⟩ := ih fun e mem => closed e (List.mem_cons_of_mem _ mem)
    rw [List.cons_append, scanFrom, if_neg gap, extent_eq_none_exchange none,
      List.count_cons_of_ne notNewline, List.length_cons,
      show pos + (rest.length + 1) + 1 = pos + 1 + rest.length + 1 by omega]
    constructor
    · rw [Scanned.tokens_record, Scanned.tokens_record, tokens]
    · rw [Scanned.problems_record, Scanned.problems_record, problems, List.cons_append]
  | case4 pos line c rest gap kind more found lexeme token ih =>
    have own : ∀ e ∈ problemsOf kind lexeme pos line, e.cause ≠ .unterminatedText :=
      fun e mem => closed e (List.mem_append_left _ mem)
    obtain ⟨tokens, problems⟩ := ih fun e mem => closed e (List.mem_append_right _ mem)
    have whole : c :: rest = lexeme ++ rest.drop more := by simp [lexeme]
    have scanned : scanFrom ((c :: rest) ++ '\n' :: cs') pos line =
        ⟨problemsOf kind lexeme pos line, token⟩ :: scanFrom (rest.drop more ++ '\n' :: cs')
          (pos + lexeme.length) (line + lexeme.count '\n') :=
      scanFrom_token_append gap found (fun text => isClosed_of_problemsOf (text ▸ own)) ..
    have more' : Scanned.tokens (scanFrom (rest.drop more) (pos + lexeme.length)
        (line + lexeme.count '\n')) ≠ [] := by
      simpa [Scanned.tokens] using scanFrom_ne_nil _ _ _
    rw [scanned, whole, List.length_append, List.count_append, ← Nat.add_assoc, ← Nat.add_assoc]
    constructor
    · show token :: Scanned.tokens _ = (token :: Scanned.tokens _).dropLast ++ _
      rw [List.dropLast_cons_of_ne_nil more', tokens, List.cons_append]
    · show problemsOf kind lexeme pos line ++ Scanned.problems _ =
        problemsOf kind lexeme pos line ++ Scanned.problems _ ++ _
      rw [problems, List.append_assoc]

/-- Behind a text that leaves no literal open, a further line scans as it does alone, only further
on. -/
theorem scan_append_line (text line : String)
    (closed : ∀ e ∈ Scanned.problems (scan text), e.cause ≠ .unterminatedText) :
    let chars := text.length + 1
    let lines := text.toList.count '\n' + 1
    Scanned.tokens (scan (text ++ "\n" ++ line)) = (Scanned.tokens (scan text)).dropLast ++
        (Scanned.tokens (scan line)).map (Token.shift chars lines) ∧
      Scanned.problems (scan (text ++ "\n" ++ line)) = Scanned.problems (scan text) ++
        (Scanned.problems (scan line)).map (ScanError.shift chars lines) := by
  intro chars lines
  have cut : (text ++ "\n" ++ line).toList = text.toList ++ '\n' :: line.toList := by simp
  have later : scanFrom line.toList (0 + text.toList.length + 1) (1 + text.toList.count '\n' + 1) =
      (scan line).map (Scanned.shift chars lines) := by
    rw [Nat.add_assoc, Nat.add_assoc, String.length_toList]
    exact scanFrom_shift line.toList 0 1 chars lines
  obtain ⟨tokens, problems⟩ := scanFrom_join text.toList 0 1 line.toList closed
  rw [later] at tokens problems
  rw [Scanned.tokens_shift] at tokens
  rw [Scanned.problems_shift] at problems
  rw [scan, cut]
  exact ⟨tokens, problems⟩

/-- A text and a further line scan to the tokens of the text, without its end token, and those of
the line, further on. -/
theorem scan_join (text line : String) (clean : Scanned.problems (scan text) = []) :
    ∃ chars lines, Scanned.tokens (scan (text ++ "\n" ++ line)) =
        (Scanned.tokens (scan text)).dropLast ++
          (Scanned.tokens (scan line)).map (Token.shift chars lines) ∧
      Scanned.problems (scan (text ++ "\n" ++ line)) =
        (Scanned.problems (scan line)).map (ScanError.shift chars lines) := by
  obtain ⟨tokens, problems⟩ := scan_append_line text line (by simp [clean])
  rw [clean, List.nil_append] at problems
  exact ⟨_, _, tokens, problems⟩

end Scriptlet
