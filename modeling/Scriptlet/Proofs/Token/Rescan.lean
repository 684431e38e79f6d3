import Scriptlet.Proofs.Layout
import Scriptlet.Proofs.Token.Join

/-!
# Scanning the lexemes again

What a token says depends on its own characters: alone it scans to itself (`scanFrom_lexeme`), and
so it does with a line end behind it, unless it is a text literal that nothing closes, behind which
no token stands. Writing the lexemes of a text one below the other and scanning them gives the
tokens of the text again (`rescan_lexemes`). The blanks and the stray characters of the text are
gone; every other problem comes back.
-/

namespace Scriptlet

/-- The tokens of a text without its end token. -/
def bodyTokens (text : String) : List Token :=
  (Scanned.tokens (scan text)).filter (·.kind != .eof)

/-- The lexemes of tokens, each starting on a line of its own. -/
def lexemeLines (tokens : List Token) : String := "\n".intercalate (tokens.map (·.lexeme))

/-! ## Problems without their places -/

/-- The causes that a scan reports, apart from stray characters. -/
def Scanned.flaws (scanned : List Scanned) : List ScanCause :=
  ((Scanned.problems scanned).filter (·.stray?.isNone)).map (·.cause)

/-- What is wrong with a token does not depend on where it stands. -/
theorem causes_problemsOf (kind : TokenKind) (lexeme : List Char) (pos line pos' line' : Nat) :
    (problemsOf kind lexeme pos line).map (·.cause) =
      (problemsOf kind lexeme pos' line').map (·.cause) := by
  have moved (pos line : Nat) : (problemsOf kind lexeme pos line).map (·.cause) =
      (problemsOf kind lexeme 0 0).map (·.cause) := by
    have shifted := problemsOf_shift kind lexeme 0 0 pos line
    rw [Nat.zero_add, Nat.zero_add] at shifted
    rw [shifted, List.map_map]
    rfl
  rw [moved, moved pos' line']

theorem Scanned.flaws_token (kind : TokenKind) (lexeme : List Char) (pos line : Nat) (t : Token)
    (later : List Scanned) :
    Scanned.flaws (⟨problemsOf kind lexeme pos line, t⟩ :: later) =
      (problemsOf kind lexeme pos line).map (·.cause) ++ Scanned.flaws later := by
  have own : (problemsOf kind lexeme pos line).filter (·.stray?.isNone) =
      problemsOf kind lexeme pos line := by
    refine List.filter_eq_self.2 fun e mem => ?_
    rw [List.filterMap_eq_nil_iff.1 (strays_problemsOf kind lexeme pos line) e mem]
    rfl
  rw [flaws, problems, List.flatMap_cons, List.filter_append, List.map_append, own]
  rfl

theorem Scanned.flaws_record (c : Char) (span : Span) (line line' : Nat) (cs : List Char)
    (pos : Nat) :
    Scanned.flaws (Scanned.record ⟨.unexpectedCharacter c, span, line⟩ (scanFrom cs pos line')) =
      Scanned.flaws (scanFrom cs pos line') := by
  rw [flaws, problems_record, List.filter_cons_of_neg (by simp [ScanError.stray?])]
  rfl

/-- Problems with one cause that is no stray character are counted among the flaws. -/
theorem Scanned.countP_cause {cause : ScanCause} (flaw : ∀ c, cause ≠ .unexpectedCharacter c)
    (scanned : List Scanned) :
    (Scanned.problems scanned).countP (·.cause = cause) = (Scanned.flaws scanned).count cause := by
  rw [flaws, List.count, List.countP_map, List.countP_filter]
  refine List.countP_congr fun e _ => ?_
  simp only [Function.comp, decide_eq_true_eq, Bool.and_eq_true, beq_iff_eq]
  constructor
  · rintro rfl
    refine ⟨rfl, ?_⟩
    unfold ScanError.stray?
    split
    · rename_i c same
      exact absurd same (flaw c)
    · rfl
  · exact And.left

/-! ## One token -/

theorem TokenKind.ofWord_ne_text (word : String) : TokenKind.ofWord word ≠ .textLiteral :=
  fun text => absurd (text ▸ ofWord_mem word) (by decide)

section
variable {c : Char} {rest : List Char} {kind : TokenKind} {more : Nat}

/-- Alone, a token takes the same characters. -/
theorem extent_lexeme (found : extent c rest = some (kind, more)) :
    extent c (rest.take more) = some (kind, more) := by
  have length : (rest.take more).length = more := List.length_take_of_le (extent_le found)
  have cut : extent c (rest.take more ++ rest.drop more) =
      some (kind, (rest.take more).length) := by
    rw [List.take_append_drop, length, found]
  have alone : extent c (rest.take more ++ []) = some (kind, (rest.take more).length) :=
    extent_exchange cut nofun
  rwa [List.append_nil, length] at alone

/-- Text literals are what starts with a quote. -/
theorem quote_of_extent (found : extent c rest = some (.textLiteral, more)) :
    c = '"' ∧ more = textExtent rest := by
  unfold extent at found
  split at found
  · rename_i quote
    cases found
    exact ⟨quote, rfl⟩
  split at found
  · cases found
  split at found
  · rename_i pair
    cases found
    obtain ⟨d, -, pair⟩ := Option.bind_eq_some_iff.1 pair
    unfold pairKind at pair
    split at pair <;> cases pair
  split at found
  · rename_i single
    cases found
    unfold singleKind at single
    split at single <;> cases single
  split at found
  · cases found
  split at found
  · have kind := congrArg Prod.fst (Option.some.inj found)
    exact absurd kind (TokenKind.ofWord_ne_text _)
  · cases found

/-- Only at the end of its text is a text literal open. -/
theorem isClosed_of_drop_ne_nil (found : extent c rest = some (kind, more))
    (behind : rest.drop more ≠ []) (text : kind = .textLiteral) :
    isClosed (c :: rest.take more) = true := by
  subst text
  obtain ⟨-, rfl⟩ := quote_of_extent found
  have takes : textExtent (rest.take (textExtent rest) ++ rest.drop (textExtent rest)) =
      (rest.take (textExtent rest)).length := by
    rw [List.take_append_drop, List.length_take_of_le (textExtent_le rest)]
  rcases closed_or_nil_of_textExtent takes with ⟨front, closed, -⟩ | ⟨-, nothing⟩
  · rw [isClosed, List.drop_one, List.tail_cons, closed]
    simp
  · exact absurd nothing behind

/-- A lexeme scans to its token. -/
theorem scanFrom_lexeme (gap : ¬ isGap c = true) (found : extent c rest = some (kind, more))
    (pos line : Nat) :
    let lexeme := c :: rest.take more
    ∃ ending, ending.content = (.eof, "", none) ∧ scanFrom lexeme pos line =
      [⟨problemsOf kind lexeme pos line,
        ⟨kind, String.ofList lexeme, line, literalOf kind lexeme, ⟨pos, pos + lexeme.length⟩⟩⟩,
        ⟨[], ending⟩] := by
  intro lexeme
  have length : (rest.take more).length = more := List.length_take_of_le (extent_le found)
  have all : (rest.take more).take more = rest.take more := by rw [List.take_take, Nat.min_self]
  have nothing : (rest.take more).drop more = [] := List.drop_eq_nil_of_le (Nat.le_of_eq length)
  refine ⟨.ending (line + lexeme.count '\n') (pos + lexeme.length), rfl, ?_⟩
  rw [scanFrom, if_neg gap, extent_lexeme found]
  simp only [all, nothing, scanFrom]
  rfl

end

/-! ## All tokens -/

/-- The value of a token is read off its lexeme. -/
theorem literal_of_mem_scanFrom {cs : List Char} {pos line : Nat} {t : Token}
    (mem : t ∈ Scanned.tokens (scanFrom cs pos line)) :
    t.literal = literalOf t.kind t.lexeme.toList := by
  fun_induction scanFrom cs pos line with
  | case1 pos line =>
    rw [List.mem_singleton.1 mem]
    rfl
  | case2 pos line c rest gap ih => exact ih mem
  | case3 pos line c rest gap none ih =>
    rw [Scanned.tokens_record] at mem
    exact ih mem
  | case4 pos line c rest gap kind more found lexeme token ih =>
    rcases List.mem_cons.1 mem with rfl | mem
    · show literalOf kind lexeme = literalOf kind (String.ofList lexeme).toList
      rw [String.toList_ofList]
    · exact ih mem

/-- Every token of a text is what its lexeme scans to. -/
theorem content_scan_lexeme {cs : List Char} {pos line : Nat} {t : Token}
    (mem : t ∈ Scanned.tokens (scanFrom cs pos line)) (token : t.kind ≠ .eof) :
    (Scanned.tokens (scan t.lexeme)).map Token.content = [t.content, (.eof, "", none)] := by
  have literal := literal_of_mem_scanFrom mem
  obtain ⟨front, c, rest, more, -, start, reach, lexeme, -⟩ := cutFrom_of_mem_scanFrom mem token
  obtain ⟨ending, eof, scanned⟩ := scanFrom_lexeme (by simp [start]) reach 0 1
  rw [lexeme, String.toList_ofList] at literal
  rw [scan, lexeme, String.toList_ofList, scanned]
  simp only [Scanned.tokens, List.map_cons, List.map_nil, eof]
  rw [Token.content, Token.content, lexeme, literal]

/-- The characters of lexemes below each other. -/
def lexemeChars : List Token → List Char
  | [] => []
  | [t] => t.lexeme.toList
  | t :: rest => t.lexeme.toList ++ '\n' :: lexemeChars rest

theorem toList_lexemeLines (tokens : List Token) :
    (lexemeLines tokens).toList = lexemeChars tokens := by
  fun_induction lexemeChars tokens with
  | case1 => rfl
  | case2 t => simp [lexemeLines]
  | case3 t rest more ih =>
    cases rest with
    | nil => exact absurd rfl more
    | cons next rest =>
      rw [← ih, lexemeLines, lexemeLines]
      simp [String.intercalate_cons_cons]

theorem scanFrom_newline (cs : List Char) (pos line : Nat) :
    scanFrom ('\n' :: cs) pos line = scanFrom cs (pos + 1) (line + 1) := by
  rw [scanFrom, if_pos (by decide)]
  rfl

/-- The second scan has the tokens of the first, apart from their places, and its problems, apart
from stray characters. -/
structure Scanned.Again (first second : List Scanned) : Prop where
  contents : (Scanned.tokens second).map Token.content = (Scanned.tokens first).map Token.content
  strays : Scanned.strays second = []
  flaws : Scanned.flaws second = Scanned.flaws first

/-- Scanning the lexemes of a scan below each other gives the scan again, wherever they stand. -/
theorem again_scanFrom (cs : List Char) (pos line pos' line' : Nat) :
    Scanned.Again (scanFrom cs pos line) (scanFrom
      (lexemeChars ((Scanned.tokens (scanFrom cs pos line)).filter (·.kind != .eof)))
      pos' line') := by
  fun_induction scanFrom cs pos line generalizing pos' line' with
  | case1 pos line =>
    show Scanned.Again _ (scanFrom [] pos' line')
    rw [scanFrom]
    exact ⟨rfl, rfl, rfl⟩
  | case2 pos line c rest gap ih => exact ih pos' line'
  | case3 pos line c rest gap none ih =>
    obtain ⟨contents, strays, flaws⟩ := ih pos' line'
    rw [Scanned.tokens_record]
    refine ⟨?_, strays, ?_⟩
    · rw [Scanned.tokens_record]
      exact contents
    · rw [Scanned.flaws_record]
      exact flaws
  | case4 pos line c rest gap kind more found lexeme token ih =>
    let later := scanFrom (rest.drop more) (pos + lexeme.length) (line + lexeme.count '\n')
    have proper : (token.kind != .eof) = true := by simpa using extent_ne_eof found
    have body : (Scanned.tokens (⟨problemsOf kind lexeme pos line, token⟩ :: later)).filter
        (·.kind != .eof) = token :: (Scanned.tokens later).filter (·.kind != .eof) :=
      List.filter_cons_of_pos proper
    rw [body]
    cases behind : (Scanned.tokens later).filter (·.kind != .eof) with
    | nil =>
      -- nothing but the end follows, so the lexeme is the last one
      obtain ⟨contents, -, flaws⟩ := ih 0 0
      rw [behind, lexemeChars, scanFrom] at contents flaws
      obtain ⟨ending, eof, scanned⟩ := scanFrom_lexeme gap found pos' line'
      rw [show lexemeChars [token] = lexeme from String.toList_ofList, scanned]
      refine ⟨?_, ?_, ?_⟩
      · show [token.content, ending.content] = token.content :: (Scanned.tokens later).map _
        rw [← contents, eof]
        rfl
      · rw [Scanned.strays_token]
        rfl
      · rw [Scanned.flaws_token, Scanned.flaws_token, ← flaws, causes_problemsOf]
        rfl
    | cons next others =>
      -- a line end and the lexeme of another token follow
      have more' : rest.drop more ≠ [] := by
        intro nothing
        rw [show later = scanFrom [] _ _ from congrArg (scanFrom · _ _) nothing, scanFrom] at behind
        cases behind
      have closed (text : kind = .textLiteral) :
          isClosed (c :: (rest.take more).take more) = true := by
        rw [List.take_take, Nat.min_self]
        exact isClosed_of_drop_ne_nil found more' text
      have scanned := scanFrom_token_append gap (extent_lexeme found) closed pos' line'
        (lexemeChars (next :: others))
      have nothing : (rest.take more).drop more = [] := by simp
      simp only [List.take_take, Nat.min_self, nothing, List.nil_append,
        scanFrom_newline] at scanned
      have written : lexemeChars (token :: next :: others) =
          lexeme ++ '\n' :: lexemeChars (next :: others) := by
        rw [lexemeChars, show token.lexeme.toList = lexeme from String.toList_ofList]
        exact List.cons_ne_nil _ _
      obtain ⟨contents, strays, flaws⟩ := ih (pos' + lexeme.length + 1)
        (line' + lexeme.count '\n' + 1)
      rw [behind] at contents strays flaws
      rw [written, scanned]
      refine ⟨?_, ?_, ?_⟩
      · exact congrArg (token.content :: ·) contents
      · rw [Scanned.strays_token]
        exact strays
      · rw [Scanned.flaws_token, Scanned.flaws_token, causes_problemsOf kind lexeme pos' line' pos]
        exact congrArg (_ ++ ·) flaws

/-! ## The main statement -/

/-- **Scanning the lexemes again gives the tokens again.** Written below each other, the lexemes of
any text scan to the same kinds, lexemes and literals in the same order. No stray character is
reported, and all other problems are as many as before. Each token alone scans to itself and an end
token. -/
theorem rescan_lexemes (text : String) :
    let first := scan text
    let second := scan (lexemeLines (bodyTokens text))
    (Scanned.tokens second).map Token.content = (Scanned.tokens first).map Token.content ∧
    (∀ e ∈ Scanned.problems second, ∀ c, e.cause ≠ .unexpectedCharacter c) ∧
    (∀ cause, (∀ c, cause ≠ .unexpectedCharacter c) →
      (Scanned.problems second).countP (·.cause = cause) =
        (Scanned.problems first).countP (·.cause = cause)) ∧
    ∀ t ∈ bodyTokens text,
      (Scanned.tokens (scan t.lexeme)).map Token.content = [t.content, (.eof, "", none)] := by
  intro first second
  have again : Scanned.Again first second := by
    show Scanned.Again first (scanFrom (lexemeLines (bodyTokens text)).toList 0 1)
    rw [toList_lexemeLines]
    exact again_scanFrom text.toList 0 1 0 1
  refine ⟨again.contents, ?_, ?_, ?_⟩
  · intro e mem c stray
    have none := List.filterMap_eq_nil_iff.1 again.strays e mem
    rw [ScanError.stray?, stray] at none
    cases none
  · intro cause flaw
    rw [Scanned.countP_cause flaw, Scanned.countP_cause flaw, again.flaws]
  · intro t mem
    obtain ⟨mem, token⟩ := List.mem_filter.1 mem
    exact content_scan_lexeme mem (by simpa using token)

/-- A point too many, a stray character and an open text: the point and the text are reported again,
the stray character is gone. -/
example :
    let text := "1.2.3 # \"a // b"
    let second := lexemeLines (bodyTokens text)
    second = "1.2.3\n\"a // b" ∧ (Scanned.problems (scan text)).length = 3 ∧
      (Scanned.problems (scan second)).length = 2 := by
  decide +kernel

end Scriptlet
