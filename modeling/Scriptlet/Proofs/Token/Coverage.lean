import Scriptlet.Proofs.Token.Extent

/-!
# Scanning accounts for every character

A scan cuts a text into pieces that lie one after the other. Every character is in exactly one
token, or it is a blank between tokens, or it is a stray character, reported once under its own name;
and no token could have been longer. `Coverage` states all of this for a list of tokens and problems,
and `scan_covers` is the main statement.

A scanner that hands out one token at a time gives the same tokens in the same order and, behind the
end token, nothing for ever (`Scanner.answer_eq_getElem?`).
-/

namespace Scriptlet

/-! ## One token at a time -/

namespace Scanner

/-- The first token of a scan, and where the scanner stands behind it. -/
theorem scanFrom_eq_seek (cs : List Char) (pos line : Nat) :
    ∃ first s, seek false cs pos line = (some first, s) ∧
      ((s.ended = true ∧ s.rest = [] ∧ scanFrom cs pos line = [first]) ∨
        (s.ended = false ∧ scanFrom cs pos line = first :: scanFrom s.rest s.pos s.line)) := by
  fun_induction scanFrom cs pos line with
  | case1 pos line => exact ⟨_, _, rfl, .inl ⟨rfl, rfl, rfl⟩⟩
  | case2 pos line c rest gap ih =>
    rw [seek, if_pos gap]
    exact ih
  | case3 pos line c rest gap none ih =>
    obtain ⟨first, s, sought, behind⟩ := ih
    rw [seek, if_neg gap, none, sought]
    refine ⟨_, s, rfl, ?_⟩
    rcases behind with ⟨ended, nothing, scanned⟩ | ⟨more, scanned⟩
    · exact .inl ⟨ended, nothing, by rw [scanned]; rfl⟩
    · exact .inr ⟨more, by rw [scanned]; rfl⟩
  | case4 pos line c rest gap kind more found lexeme token ih =>
    rw [seek, if_neg gap, found]
    exact ⟨_, _, rfl, .inr ⟨rfl, rfl⟩⟩

/-- Behind the end token nothing follows, however often the scanner is asked. -/
theorem answer_of_ended {s : Scanner} (ended : s.ended = true) (nothing : s.rest = []) (n : Nat) :
    s.answer n = none := by
  have stays : s.next = (none, ⟨[], s.pos, s.line, true⟩) := by
    rw [next, ended, nothing]
    rfl
  induction n generalizing s with
  | zero => rw [answer, stays]
  | succ n ih =>
    rw [answer, stays]
    exact ih rfl rfl rfl

theorem answer_eq_scanFrom {s : Scanner} (running : s.ended = false) (n : Nat) :
    s.answer n = (scanFrom s.rest s.pos s.line)[n]? := by
  induction n generalizing s with
  | zero =>
    obtain ⟨first, s', sought, behind⟩ := scanFrom_eq_seek s.rest s.pos s.line
    rw [answer, next, running, sought]
    rcases behind with ⟨-, -, scanned⟩ | ⟨-, scanned⟩ <;> rw [scanned] <;> rfl
  | succ n ih =>
    obtain ⟨first, s', sought, behind⟩ := scanFrom_eq_seek s.rest s.pos s.line
    rw [answer, next, running, sought]
    rcases behind with ⟨ended, nothing, scanned⟩ | ⟨more, scanned⟩
    · rw [scanned, answer_of_ended ended nothing]
      rfl
    · rw [scanned, ih more]
      rfl

/-- The answers of a scanner are the scan, and then nothing for ever. -/
theorem answer_eq_getElem? (text : String) (n : Nat) : (ofText text).answer n = (scan text)[n]? :=
  answer_eq_scanFrom rfl n

end Scanner

/-! ## Where tokens come from -/

/-- The token was cut out of the characters that stand from offset `pos` on: behind `front`, at a
character with which a token starts, and as long as `extent` says. -/
inductive Token.CutFrom (cs : List Char) (pos : Nat) (t : Token) : Prop
  | intro (front : List Char) (c : Char) (rest : List Char) (more : Nat)
      (split : cs = front ++ c :: rest) (start : isGap c = false)
      (reach : extent c rest = some (t.kind, more))
      (lexeme : t.lexeme = String.ofList (c :: rest.take more))
      (span : t.span = ⟨pos + front.length, pos + front.length + (more + 1)⟩)

/-- What is cut out behind some characters is cut out of the whole. -/
theorem Token.CutFrom.behind {cs : List Char} {pos : Nat} {t : Token} (before : List Char)
    (h : t.CutFrom cs (pos + before.length)) : t.CutFrom (before ++ cs) pos := by
  obtain ⟨front, c, rest, more, rfl, start, reach, lexeme, span⟩ := h
  refine ⟨before ++ front, c, rest, more, by simp, start, reach, lexeme, ?_⟩
  rw [span, List.length_append, Nat.add_assoc]

/-- Every token of a scan but the end was cut out of the text. -/
theorem cutFrom_of_mem_scanFrom {cs : List Char} {pos line : Nat} {t : Token}
    (mem : t ∈ Scanned.tokens (scanFrom cs pos line)) (token : t.kind ≠ .eof) :
    t.CutFrom cs pos := by
  fun_induction scanFrom cs pos line with
  | case1 pos line =>
    rw [Scanned.tokens, List.map_singleton, List.mem_singleton] at mem
    exact absurd (congrArg Token.kind mem) token
  | case2 pos line c rest gap ih => exact (ih mem).behind [c]
  | case3 pos line c rest gap none ih =>
    rw [Scanned.tokens_record] at mem
    exact (ih mem).behind [c]
  | case4 pos line c rest gap kind more found lexeme token' ih =>
    have length : lexeme.length = more + 1 := by
      rw [List.length_cons, List.length_take_of_le (extent_le found)]
    rcases List.mem_cons.1 mem with rfl | mem
    · refine ⟨[], c, rest, more, rfl, by simpa using gap, found, rfl, ?_⟩
      show (⟨pos, pos + lexeme.length⟩ : Span) = _
      rw [length]
      rfl
    · have cut := (ih mem).behind lexeme
      rwa [List.cons_append, List.take_append_drop] at cut

/-! ## Stray characters -/

/-- The stray character that a problem reports, and where. -/
def ScanError.stray? (e : ScanError) : Option (Char × Span) :=
  match e.cause with
  | .unexpectedCharacter c => some (c, e.span)
  | _ => none

/-- The stray characters that a scan reports, in the order of the reports. -/
def Scanned.strays (scanned : List Scanned) : List (Char × Span) :=
  (Scanned.problems scanned).filterMap ScanError.stray?

/-- The problems of a token report no stray character. -/
theorem strays_problemsOf (kind : TokenKind) (lexeme : List Char) (pos line : Nat) :
    (problemsOf kind lexeme pos line).filterMap ScanError.stray? = [] := by
  refine List.filterMap_eq_nil_iff.2 fun e mem => ?_
  unfold problemsOf at mem
  split at mem
  · split at mem
    · cases mem
    · rw [List.mem_singleton.1 mem]
      rfl
  · rcases List.mem_append.1 mem with mem | mem
    · obtain ⟨at_, -, rfl⟩ := List.mem_map.1 mem
      rfl
    · split at mem
      · cases mem
      · rw [List.mem_singleton.1 mem]
        rfl
  · cases mem

theorem Scanned.strays_token (kind : TokenKind) (lexeme : List Char) (pos line : Nat) (t : Token)
    (later : List Scanned) :
    Scanned.strays (⟨problemsOf kind lexeme pos line, t⟩ :: later) = Scanned.strays later := by
  rw [strays, problems, List.flatMap_cons, List.filterMap_append, strays_problemsOf]
  rfl

theorem Scanned.strays_record (c : Char) (span : Span) (line line' : Nat) (cs : List Char)
    (pos : Nat) :
    Scanned.strays (Scanned.record ⟨.unexpectedCharacter c, span, line⟩ (scanFrom cs pos line')) =
      (c, span) :: Scanned.strays (scanFrom cs pos line') := by
  rw [strays, problems_record, List.filterMap_cons]
  rfl

/-! ## One after the other -/

/-- What a scan from `pos` on finds lies at `pos` or behind it, and one after the other. -/
structure Scanned.InOrder (scanned : List Scanned) (pos : Nat) : Prop where
  tokens : (Scanned.tokens scanned).Pairwise fun t u => t.span.stop ≤ u.span.start
  tokensFrom : ∀ t ∈ Scanned.tokens scanned, pos ≤ t.span.start
  strays : (Scanned.strays scanned).Pairwise fun x y => x.2.stop ≤ y.2.start
  straysFrom : ∀ x ∈ Scanned.strays scanned, pos ≤ x.2.start

theorem inOrder_scanFrom (cs : List Char) (pos line : Nat) :
    Scanned.InOrder (scanFrom cs pos line) pos := by
  fun_induction scanFrom cs pos line with
  | case1 pos line =>
    refine ⟨List.pairwise_singleton _ _, fun t mem => ?_, .nil, List.forall_mem_nil _⟩
    rw [List.mem_singleton.1 mem]
    exact Nat.le_refl _
  | case2 pos line c rest gap ih =>
    exact ⟨ih.tokens, fun t mem => Nat.le_of_succ_le (ih.tokensFrom t mem), ih.strays,
      fun x mem => Nat.le_of_succ_le (ih.straysFrom x mem)⟩
  | case3 pos line c rest gap none ih =>
    refine ⟨?_, ?_, ?_, ?_⟩
    · rw [Scanned.tokens_record]
      exact ih.tokens
    · rw [Scanned.tokens_record]
      exact fun t mem => Nat.le_of_succ_le (ih.tokensFrom t mem)
    · rw [Scanned.strays_record]
      exact List.pairwise_cons.2 ⟨ih.straysFrom, ih.strays⟩
    · rw [Scanned.strays_record]
      intro x mem
      rcases List.mem_cons.1 mem with rfl | mem
      · exact Nat.le_refl _
      · exact Nat.le_of_succ_le (ih.straysFrom x mem)
  | case4 pos line c rest gap kind more found lexeme token ih =>
    have behind {n : Nat} (h : pos + lexeme.length ≤ n) : pos ≤ n :=
      Nat.le_trans (Nat.le_add_right _ _) h
    refine ⟨List.pairwise_cons.2 ⟨ih.tokensFrom, ih.tokens⟩, ?_, ?_, ?_⟩
    · intro t mem
      rcases List.mem_cons.1 mem with rfl | mem
      · exact Nat.le_refl _
      · exact behind (ih.tokensFrom t mem)
    · rw [Scanned.strays_token]
      exact ih.strays
    · rw [Scanned.strays_token]
      exact fun x mem => behind (ih.straysFrom x mem)

/-! ## Every character -/

/-- How the character at an offset is accounted for. -/
inductive Accounted (tokens : List Token) (strays : List (Char × Span)) (offset : Nat) (c : Char) :
    Prop
  /-- It is in one token, and not reported. -/
  | inToken (t : Token) : tokens.filter (·.span.contains offset) = [t] →
      strays.filter (·.2.contains offset) = [] → Accounted tokens strays offset c
  /-- It is a blank outside all tokens, and not reported. -/
  | blank : isGap c = true → tokens.filter (·.span.contains offset) = [] →
      strays.filter (·.2.contains offset) = [] → Accounted tokens strays offset c
  /-- It is no blank and outside all tokens, and one report names it. -/
  | stray : isGap c = false → tokens.filter (·.span.contains offset) = [] →
      strays.filter (·.2.contains offset) = [(c, ⟨offset, offset + 1⟩)] →
      Accounted tokens strays offset c

section
variable {tokens : List Token} {strays : List (Char × Span)} {offset : Nat} {c : Char}

/-- A token that lies elsewhere changes nothing. -/
theorem Accounted.token {t : Token} (h : Accounted tokens strays offset c)
    (elsewhere : t.span.contains offset = false) : Accounted (t :: tokens) strays offset c := by
  have same : (t :: tokens).filter (·.span.contains offset) =
      tokens.filter (·.span.contains offset) := List.filter_cons_of_neg (by simp [elsewhere])
  cases h with
  | inToken u inside quiet => exact .inToken u (same.trans inside) quiet
  | blank gap outside quiet => exact .blank gap (same.trans outside) quiet
  | stray gap outside reported => exact .stray gap (same.trans outside) reported

/-- A report about another place changes nothing. -/
theorem Accounted.report {x : Char × Span} (h : Accounted tokens strays offset c)
    (elsewhere : x.2.contains offset = false) : Accounted tokens (x :: strays) offset c := by
  have same : (x :: strays).filter (·.2.contains offset) =
      strays.filter (·.2.contains offset) := List.filter_cons_of_neg (by simp [elsewhere])
  cases h with
  | inToken u inside quiet => exact .inToken u inside (same.trans quiet)
  | blank gap outside quiet => exact .blank gap outside (same.trans quiet)
  | stray gap outside reported => exact .stray gap outside (same.trans reported)

end

/-- Nothing that a scan finds covers an offset before its start. -/
theorem Scanned.InOrder.nothing_before {scanned : List Scanned} {pos offset : Nat}
    (h : Scanned.InOrder scanned pos) (before : offset < pos) :
    (Scanned.tokens scanned).filter (·.span.contains offset) = [] ∧
      (Scanned.strays scanned).filter (·.2.contains offset) = [] := by
  constructor
  · refine List.filter_eq_nil_iff.2 fun t mem inside => ?_
    have := h.tokensFrom t mem
    have := (Span.contains_iff _ _).1 inside
    omega
  · refine List.filter_eq_nil_iff.2 fun x mem inside => ?_
    have := h.straysFrom x mem
    have := (Span.contains_iff _ _).1 inside
    omega

theorem accounted_scanFrom (cs : List Char) (pos line i : Nat) (d : Char) (here : cs[i]? = some d) :
    Accounted (Scanned.tokens (scanFrom cs pos line)) (Scanned.strays (scanFrom cs pos line))
      (pos + i) d := by
  fun_induction scanFrom cs pos line generalizing i with
  | case1 pos line => cases here
  | case2 pos line c rest gap ih =>
    cases i with
    | zero =>
      cases here
      obtain ⟨outside, quiet⟩ := (inOrder_scanFrom rest (pos + 1) _).nothing_before
        (Nat.lt_succ_self pos)
      exact .blank gap outside quiet
    | succ i =>
      rw [show pos + (i + 1) = pos + 1 + i by omega]
      exact ih i here
  | case3 pos line c rest gap none ih =>
    rw [Scanned.tokens_record, Scanned.strays_record]
    cases i with
    | zero =>
      cases here
      obtain ⟨outside, quiet⟩ := (inOrder_scanFrom rest (pos + 1) line).nothing_before
        (Nat.lt_succ_self pos)
      refine .stray (by simpa using gap) outside ?_
      rw [Nat.add_zero, List.filter_cons_of_pos (by simp [Span.contains]), quiet]
    | succ i =>
      have elsewhere : (⟨pos, pos + 1⟩ : Span).contains (pos + 1 + i) = false := by
        simp only [Span.contains, Bool.and_eq_false_iff, decide_eq_false_iff_not]
        omega
      rw [show pos + (i + 1) = pos + 1 + i by omega]
      exact (ih i here).report elsewhere
  | case4 pos line c rest gap kind more found lexeme token ih =>
    rw [Scanned.strays_token]
    have length : lexeme.length = more + 1 := by
      rw [List.length_cons, List.length_take_of_le (extent_le found)]
    by_cases inside : i < lexeme.length
    · obtain ⟨outside, quiet⟩ := (inOrder_scanFrom (rest.drop more) (pos + lexeme.length)
        (line + lexeme.count '\n')).nothing_before (Nat.add_lt_add_left inside pos)
      have covers : token.span.contains (pos + i) = true :=
        (Span.contains_iff _ _).2 ⟨Nat.le_add_right _ _, Nat.add_lt_add_left inside pos⟩
      refine .inToken token ?_ quiet
      show (token :: Scanned.tokens _).filter (·.span.contains (pos + i)) = [token]
      rw [List.filter_cons_of_pos (by simpa using covers), outside]
    · -- the character stands behind the token
      obtain ⟨j, rfl⟩ := Nat.exists_eq_add_of_le (Nat.le_of_not_lt inside)
      have elsewhere : token.span.contains (pos + (lexeme.length + j)) = false := by
        simp [token, Span.contains]
      have later : (rest.drop more)[j]? = some d := by
        rw [length, Nat.add_right_comm, List.getElem?_cons_succ] at here
        rw [List.getElem?_drop]
        exact here
      rw [← Nat.add_assoc] at elsewhere ⊢
      exact (ih j later).token elsewhere

/-! ## No token could be longer -/

/-- Together with the character behind it a token does not make one longer token. -/
theorem Token.CutFrom.longest {text : List Char} {t : Token} (h : t.CutFrom text 0) {d : Char}
    (next : text[t.span.stop]? = some d) :
    ∀ u ∈ Scanned.tokens (scan (t.lexeme.push d)), u.span ≠ ⟨0, t.lexeme.length + 1⟩ := by
  obtain ⟨front, c, rest, more, rfl, start, reach, lexeme, span⟩ := h
  have length := List.length_take_of_le (extent_le reach)
  -- the character behind the token is the one that stopped it
  have behind : (rest.drop more).head? = some d := by
    rw [List.head?_drop]
    rw [span, Nat.zero_add, List.getElem?_append_right (Nat.le_add_right _ _),
      Nat.add_sub_cancel_left, List.getElem?_cons_succ] at next
    exact next
  have stopped : extent c (rest.take more ++ [d]) = some (t.kind, more) := by
    have cut : extent c (rest.take more ++ rest.drop more) =
        some (t.kind, (rest.take more).length) := by
      rw [List.take_append_drop, length, reach]
    have again : extent c (rest.take more ++ [d]) = some (t.kind, (rest.take more).length) :=
      extent_exchange cut fun x same => .inl (behind.trans same)
    rwa [length] at again
  have scanned : (t.lexeme.push d).toList = c :: (rest.take more ++ [d]) := by
    rw [String.toList_push, lexeme, String.toList_ofList]
    rfl
  intro u mem
  rw [scan, scanned, scanFrom, if_neg (by simp [start]), stopped] at mem
  have size : t.lexeme.length = more + 1 := by
    rw [← String.length_toList, lexeme, String.toList_ofList, List.length_cons, length]
  rcases List.mem_cons.1 mem with rfl | mem
  · intro same
    have same := congrArg Span.stop same
    simp [size, length] at same
  · intro same
    have later := (inOrder_scanFrom _ _ _).tokensFrom u mem
    rw [same] at later
    simp at later

/-! ## The whole scan -/

/-- What a list of tokens and problems has to satisfy to be a scan of a text. -/
structure Coverage (text : String) (scanned : List Scanned) : Prop where
  /-- The last token, and no other, is the end, at the number of characters. -/
  ends : ∃ body line, Scanned.tokens scanned = body ++ [.ending line text.length] ∧
    ∀ t ∈ body, t.kind ≠ .eof
  /-- All other tokens are pieces of the text, none of them empty. -/
  pieces : ∀ t ∈ Scanned.tokens scanned, t.kind ≠ .eof →
    t.span.start < t.span.stop ∧ t.span.stop ≤ text.length ∧ t.lexeme = t.span.slice text
  /-- The tokens lie one after the other. -/
  apart : (Scanned.tokens scanned).Pairwise fun t u => t.span.stop ≤ u.span.start
  /-- Every character is in one token, or a blank, or reported. -/
  accounted : ∀ i c, text.toList[i]? = some c →
    Accounted (Scanned.tokens scanned) (Scanned.strays scanned) i c
  /-- The reports of stray characters come in the order of the text... -/
  inOrder : (Scanned.strays scanned).Pairwise fun x y => x.2.stop ≤ y.2.start
  /-- ...and each is about one character of it. -/
  reports : ∀ x ∈ Scanned.strays scanned, ∃ i, text.toList[i]? = some x.1 ∧ x.2 = ⟨i, i + 1⟩
  /-- No token can be made longer by the character behind it. -/
  longest : ∀ t ∈ Scanned.tokens scanned, t.kind ≠ .eof → ∀ d,
    text.toList[t.span.stop]? = some d →
      ∀ u ∈ Scanned.tokens (scan (t.lexeme.push d)), u.span ≠ ⟨0, t.lexeme.length + 1⟩

theorem ends_scanFrom (cs : List Char) (pos line : Nat) :
    ∃ body line', Scanned.tokens (scanFrom cs pos line) =
      body ++ [.ending line' (pos + cs.length)] ∧ ∀ t ∈ body, t.kind ≠ .eof := by
  fun_induction scanFrom cs pos line with
  | case1 pos line => exact ⟨[], line, rfl, List.forall_mem_nil _⟩
  | case2 pos line c rest gap ih =>
    rw [List.length_cons, show pos + (rest.length + 1) = pos + 1 + rest.length by omega]
    exact ih
  | case3 pos line c rest gap none ih =>
    rw [Scanned.tokens_record, List.length_cons,
      show pos + (rest.length + 1) = pos + 1 + rest.length by omega]
    exact ih
  | case4 pos line c rest gap kind more found lexeme token ih =>
    obtain ⟨body, last, same, inside⟩ := ih
    have length : pos + lexeme.length + (rest.drop more).length = pos + (c :: rest).length := by
      have := extent_le found
      simp [lexeme]
      omega
    refine ⟨token :: body, last, ?_, fun t mem => ?_⟩
    · rw [← length]
      exact congrArg (token :: ·) same
    · rcases List.mem_cons.1 mem with rfl | mem
      · exact extent_ne_eof found
      · exact inside t mem

theorem reports_scanFrom (cs : List Char) (pos line : Nat) (x : Char × Span)
    (mem : x ∈ Scanned.strays (scanFrom cs pos line)) :
    ∃ i, cs[i]? = some x.1 ∧ x.2 = ⟨pos + i, pos + i + 1⟩ := by
  fun_induction scanFrom cs pos line with
  | case1 => cases mem
  | case2 pos line c rest gap ih =>
    obtain ⟨i, here, span⟩ := ih mem
    exact ⟨i + 1, here, by rw [span]; congr 1 <;> omega⟩
  | case3 pos line c rest gap none ih =>
    rw [Scanned.strays_record] at mem
    rcases List.mem_cons.1 mem with rfl | mem
    · exact ⟨0, rfl, rfl⟩
    · obtain ⟨i, here, span⟩ := ih mem
      exact ⟨i + 1, here, by rw [span]; congr 1 <;> omega⟩
  | case4 pos line c rest gap kind more found lexeme token ih =>
    rw [Scanned.strays_token] at mem
    obtain ⟨i, here, span⟩ := ih mem
    have length : lexeme.length = more + 1 := by
      rw [List.length_cons, List.length_take_of_le (extent_le found)]
    refine ⟨more + i + 1, ?_, by rw [span, length]; congr 1 <;> omega⟩
    rw [List.getElem?_cons_succ, ← List.getElem?_drop]
    exact here

/-- A piece that was cut out is the part of the text under its span. -/
theorem Token.CutFrom.piece {text : String} {t : Token} (h : t.CutFrom text.toList 0) :
    t.span.start < t.span.stop ∧ t.span.stop ≤ text.length ∧ t.lexeme = t.span.slice text := by
  obtain ⟨front, c, rest, more, split, start, reach, lexeme, span⟩ := h
  have bound := extent_le reach
  have total : text.length = front.length + (rest.length + 1) := by
    rw [← String.length_toList, split, List.length_append, List.length_cons]
  rw [span, total]
  refine ⟨by simp, by simp; omega, ?_⟩
  rw [lexeme, Span.slice, Span.sliceChars, split]
  simp [Span.length]

/-- The tokens of a text stand one behind the other. -/
theorem scan_apart (text : String) :
    (Scanned.tokens (scan text)).Pairwise fun t u => t.span.stop ≤ u.span.start :=
  (inOrder_scanFrom text.toList 0 1).tokens

/-- **A scan accounts for every character of its text**, and a scanner that is asked token by token
gives the same and then nothing for ever. -/
theorem scan_covers (text : String) :
    Coverage text (scan text) ∧ ∀ n, (Scanner.ofText text).answer n = (scan text)[n]? := by
  have order := inOrder_scanFrom text.toList 0 1
  refine ⟨?_, Scanner.answer_eq_getElem? text⟩
  exact {
    ends := by
      have := ends_scanFrom text.toList 0 1
      rwa [Nat.zero_add, String.length_toList] at this
    pieces := fun t mem token => (cutFrom_of_mem_scanFrom mem token).piece
    apart := order.tokens
    accounted := fun i c here => by
      have := accounted_scanFrom text.toList 0 1 i c here
      rwa [Nat.zero_add] at this
    inOrder := order.strays
    reports := fun x mem => by
      have := reports_scanFrom text.toList 0 1 x mem
      simpa using this
    longest := fun t mem token d next => (cutFrom_of_mem_scanFrom mem token).longest next }

end Scriptlet
