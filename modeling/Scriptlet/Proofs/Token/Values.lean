import Mathlib.Data.List.TakeDrop
import Mathlib.Data.List.Flatten
import Scriptlet.Proofs.Token.Rescan

/-!
# Values of literals

A number is scanned as a digit followed by digits and points. Without the points after the first it
is always a number that can be read (`read?_dropSurplusPoints`), so every number token has a value
(`literal_of_number`), and no problem says otherwise. What is reported are the surplus points, each
once and in order (`scanFrom_points`, `surplus_reported`).

A text literal has the characters between its quotes for its value, with line feeds for what stands
for them. Every text without quotes that does not by itself contain what stands for a line feed can
be written as a literal, and no other (`written_text_scans_back_iff`).
-/

namespace Scriptlet

/-! ## Reading digits -/

namespace Number

variable {c : Char} {rest before after : List Char}

theorem toLower_of_isDigit (digit : c.isDigit = true) : c.toLower = c := by
  have ⟨_, small⟩ : '0'.val ≤ c.val ∧ c.val ≤ '9'.val := by simpa [Char.isDigit] using digit
  refine dif_neg ?_
  rintro ⟨large, -⟩
  exact absurd (UInt32.le_trans large small) (by decide)

/-- What starts with a digit has no sign and is no word. -/
theorem read?_of_digit (digit : c.isDigit = true) :
    read? (String.ofList (c :: rest)) = unsigned? false (c :: rest) := by
  have sign : splitSign (c :: rest) = (false, c :: rest) := by
    unfold splitSign
    split
    · next same =>
      rw [(List.cons.inj same).1] at digit
      cases digit
    · next same =>
      rw [(List.cons.inj same).1] at digit
      cases digit
    · rfl
  have word (w : Char) (ws : List Char) (letter : w.isDigit = false) :
      String.ofList ((c :: rest).map Char.toLower) ≠ String.ofList (w :: ws) := by
    intro same
    have heads := (List.cons.inj (String.ofList_injective same)).1
    rw [toLower_of_isDigit digit] at heads
    rw [heads, letter] at digit
    cases digit
  unfold read?
  rw [String.toList_ofList, sign]
  dsimp only
  rw [if_neg (not_or.2 ⟨word 'i' ['n', 'f'] rfl, word 'i' ['n', 'f', 'i', 'n', 'i', 't', 'y'] rfl⟩),
    if_neg (word 'n' ['a', 'n'] rfl)]

theorem splitDigits_append (digits : ∀ x ∈ before, x.isDigit = true)
    (stop : ∀ d, after.head? = some d → d.isDigit = false) :
    splitDigits (before ++ after) = (before, after) := by
  have run := takeWhile_append_eq_iff.2 ⟨digits, stop⟩
  have whole := List.takeWhile_append_dropWhile (p := Char.isDigit) (l := before ++ after)
  rw [run, List.append_cancel_left_eq] at whole
  rw [splitDigits, List.span_eq_takeWhile_dropWhile, run, whole]

theorem splitDigits_digits (digits : ∀ x ∈ before, x.isDigit = true) :
    splitDigits before = (before, []) := by
  have split : splitDigits (before ++ []) = (before, []) :=
    splitDigits_append digits fun d next => by cases next
  rwa [List.append_nil] at split

/-- Digits are a number. -/
theorem unsigned?_digits (some_ : before ≠ []) (digits : ∀ x ∈ before, x.isDigit = true) :
    unsigned? false before = some (ofDecimal false (digitsValue before) 0) := by
  simp [unsigned?, splitDigits_digits digits, some_, exponent?]

/-- Digits, a point and further digits, of which there may be none, are a number. -/
theorem unsigned?_point (some_ : before ≠ []) (digits : ∀ x ∈ before, x.isDigit = true)
    (digits' : ∀ x ∈ after, x.isDigit = true) :
    unsigned? false (before ++ '.' :: after) =
      some (ofDecimal false (digitsValue (before ++ after)) (-(after.length : Int))) := by
  have first : splitDigits (before ++ '.' :: after) = (before, '.' :: after) := by
    refine splitDigits_append digits fun d next => ?_
    cases next
    rfl
  simp [unsigned?, first, splitDigits_digits digits', some_, exponent?]

end Number

/-! ## Numbers -/

/-- The number that digits and points write: the digits are those of an integer, each worth ten times
the next one, and each digit behind the first point makes it ten times smaller. -/
def numberValue (lexeme : List Char) : Float :=
  Number.ofDecimal false
    ((lexeme.filter Char.isDigit).foldl (fun n c => 10 * n + Number.digitValue c) 0)
    (-((lexeme.dropWhile (· != '.')).countP Char.isDigit : Int))

/-- Apart from points, the parts of a number are digits. -/
theorem ne_point_eq_isDigit {c : Char} (part : isNumberPart c = true) : (c != '.') = c.isDigit := by
  rcases Bool.or_eq_true_iff.1 part with digit | point
  · rw [digit, bne_iff_ne]
    rintro rfl
    cases digit
  · rw [beq_iff_eq.1 point]
    rfl

/-- **Without its surplus points, a number can be read.** -/
theorem read?_dropSurplusPoints {c : Char} {rest : List Char} (digit : c.isDigit = true)
    (parts : ∀ x ∈ rest, isNumberPart x = true) :
    Number.read? (String.ofList (dropSurplusPoints (c :: rest))) =
      some (numberValue (c :: rest)) := by
  have parts' : ∀ x ∈ c :: rest, isNumberPart x = true :=
    List.forall_mem_cons.2 ⟨by simp [isNumberPart, digit], parts⟩
  -- the digits up to the first point
  let more := rest.takeWhile (· != '.')
  have front : (c :: rest).takeWhile (· != '.') = c :: more :=
    List.takeWhile_cons_of_pos (by rw [ne_point_eq_isDigit (parts' c List.mem_cons_self), digit])
  have digits : ∀ x ∈ c :: more, x.isDigit = true := by
    intro x mem
    rw [← front] at mem
    rw [← ne_point_eq_isDigit (parts' x (List.takeWhile_subset _ mem))]
    exact List.all_eq_true.1 List.all_takeWhile x mem
  have whole := List.takeWhile_append_dropWhile (p := (· != '.')) (l := c :: rest)
  rw [front] at whole
  rw [dropSurplusPoints, List.span_eq_takeWhile_dropWhile, front, numberValue,
    ← Number.digitsValue_eq_foldl]
  cases behind : (c :: rest).dropWhile (· != '.') with
  | nil =>
    rw [behind, List.append_nil] at whole
    rw [← whole, List.filter_eq_self.2 digits]
    exact (Number.read?_of_digit digit).trans
      (Number.unsigned?_digits (List.cons_ne_nil c more) digits)
  | cons point after =>
    obtain rfl : point = '.' := by
      have stop := List.head_dropWhile_not (p := (· != '.')) (l := c :: rest) (by simp [behind])
      simpa [behind] using stop
    rw [behind] at whole
    have same : after.filter (· != '.') = after.filter Char.isDigit := by
      refine List.filter_congr fun x mem => ne_point_eq_isDigit (parts' x ?_)
      rw [← whole]
      exact List.mem_append_right _ (List.mem_cons_of_mem _ mem)
    have digits' : ∀ x ∈ after.filter Char.isDigit, x.isDigit = true :=
      fun x mem => (List.mem_filter.1 mem).2
    have all : (c :: rest).filter Char.isDigit = c :: more ++ after.filter Char.isDigit := by
      rw [← whole, List.filter_append, List.filter_eq_self.2 digits]
      rfl
    have few : ('.' :: after).countP Char.isDigit = (after.filter Char.isDigit).length := by
      rw [List.countP_cons_of_neg (by decide), List.countP_eq_length_filter]
    dsimp only
    rw [same, all, few]
    exact (Number.read?_of_digit digit).trans
      (Number.unsigned?_point (List.cons_ne_nil c more) digits digits')

/-- Numbers are what starts with a digit. -/
theorem digit_of_extent {c : Char} {rest : List Char} {more : Nat}
    (found : extent c rest = some (.numberLiteral, more)) :
    c.isDigit = true ∧ ∀ x ∈ rest.take more, isNumberPart x = true := by
  generalize same : TokenKind.numberLiteral = kind at found
  cases reaches_of_extent found with
  | number digit =>
    refine ⟨digit, fun x mem => ?_⟩
    rw [← List.prefix_iff_eq_take.1 (List.takeWhile_prefix isNumberPart)] at mem
    exact List.all_eq_true.1 List.all_takeWhile x mem
  | text | comment => cases same
  | pair _ pair =>
    subst same
    unfold pairKind at pair
    split at pair <;> cases pair
  | single single =>
    subst same
    unfold singleKind at single
    split at single <;> cases single
  | word =>
    have word := TokenKind.ofWord_mem (String.ofList (c :: rest.takeWhile isWordPart))
    rw [← same] at word
    exact absurd word (by decide)

/-- A number that is scanned can be read. -/
theorem read?_of_extent {c : Char} {rest : List Char} {more : Nat}
    (found : extent c rest = some (.numberLiteral, more)) :
    Number.read? (String.ofList (dropSurplusPoints (c :: rest.take more))) =
      some (numberValue (c :: rest.take more)) :=
  read?_dropSurplusPoints (digit_of_extent found).1 (digit_of_extent found).2

/-! ## Surplus points -/

theorem mem_surplusPoints {i pos : Nat} {seen : Bool} {cs : List Char} :
    i ∈ surplusPoints pos seen cs ↔
      ∃ k, i = pos + k ∧ cs[k]? = some '.' ∧ (seen = true ∨ ∃ j < k, cs[j]? = some '.') := by
  induction cs generalizing pos seen with
  | nil => simp [surplusPoints]
  | cons c rest ih =>
    -- a point further on is surplus as before, or because of the first character
    have later (seen' : Bool) (same : seen' = true ↔ seen = true ∨ c = '.') :
        i ∈ surplusPoints (pos + 1) seen' rest ↔ ∃ k, i = pos + (k + 1) ∧
          (c :: rest)[k + 1]? = some '.' ∧
            (seen = true ∨ ∃ j < k + 1, (c :: rest)[j]? = some '.') := by
      rw [ih]
      refine exists_congr fun k => ?_
      rw [List.getElem?_cons_succ, same, Nat.exists_lt_succ_left, List.getElem?_cons_zero,
        Option.some.injEq, Nat.add_right_comm, or_assoc]
      simp only [List.getElem?_cons_succ, Nat.add_assoc]
    rw [← Nat.or_exists_add_one, surplusPoints]
    by_cases point : c = '.'
    · rw [if_pos point, apply_ite (i ∈ ·), List.mem_cons, later true (by simp [point])]
      by_cases before : seen = true <;> simp [before, point]
    · rw [if_neg point, later seen (by simp [point])]
      simp [point]

theorem surplusPoints_ascending (pos : Nat) (seen : Bool) (cs : List Char) :
    (surplusPoints pos seen cs).Pairwise (· < ·) := by
  induction cs generalizing pos seen with
  | nil => exact .nil
  | cons c rest ih =>
    unfold surplusPoints
    split
    · split
      · refine List.pairwise_cons.2 ⟨fun i mem => ?_, ih (pos + 1) true⟩
        obtain ⟨k, rfl, -⟩ := mem_surplusPoints.1 mem
        omega
      · exact ih (pos + 1) true
    · exact ih (pos + 1) seen

/-- The offsets at which a token has points too many. -/
def Token.surplus (t : Token) : List Nat :=
  if t.kind = .numberLiteral then surplusPoints t.span.start false t.lexeme.toList else []

/-- The places at which a scan reports points too many, in the order of the reports. -/
def Scanned.surplus (scanned : List Scanned) : List Span :=
  ((Scanned.problems scanned).filter (·.cause = .surplusPoint)).map (·.span)

/-- What is reported of a token that was scanned are its surplus points, besides an open literal. -/
theorem problemsOf_of_extent {c : Char} {rest : List Char} {kind : TokenKind} {more : Nat}
    (found : extent c rest = some (kind, more)) (pos line : Nat) :
    let lexeme := c :: rest.take more
    (∀ e ∈ problemsOf kind lexeme pos line, ∀ digits, e.cause ≠ .malformedNumber digits) ∧
      ((problemsOf kind lexeme pos line).filter (·.cause = .surplusPoint)).map (·.span) =
        (if kind = .numberLiteral then surplusPoints pos false lexeme else []).map
          fun i => ⟨i, i + 1⟩ := by
  intro lexeme
  cases kind
  case numberLiteral =>
    have points : problemsOf .numberLiteral lexeme pos line =
        (surplusPoints pos false lexeme).map fun i => ⟨.surplusPoint, ⟨i, i + 1⟩, line⟩ := by
      simp [problemsOf, lexeme, read?_of_extent found]
    rw [points, List.filter_eq_self.2 (by simp), List.map_map]
    exact ⟨by simp, rfl⟩
  case textLiteral =>
    cases closed : isClosed lexeme <;> simp [problemsOf, closed]
  all_goals simp [problemsOf]

/-- No problem says that a number cannot be read, and the surplus points of the tokens are reported,
one after the other. -/
theorem scanFrom_points (cs : List Char) (pos line : Nat) :
    (∀ e ∈ Scanned.problems (scanFrom cs pos line), ∀ digits,
      e.cause ≠ .malformedNumber digits) ∧
      Scanned.surplus (scanFrom cs pos line) =
        ((Scanned.tokens (scanFrom cs pos line)).flatMap Token.surplus).map
          fun i => ⟨i, i + 1⟩ := by
  fun_induction scanFrom cs pos line with
  | case1 pos line => exact ⟨List.forall_mem_nil _, rfl⟩
  | case2 pos line c rest gap ih => exact ih
  | case3 pos line c rest gap none ih =>
    obtain ⟨proper, points⟩ := ih
    rw [Scanned.surplus, Scanned.problems_record, Scanned.tokens_record]
    exact ⟨List.forall_mem_cons.2 ⟨(fun _ same => by cases same), proper⟩, points⟩
  | case4 pos line c rest gap kind more found lexeme token ih =>
    obtain ⟨proper, points⟩ := ih
    obtain ⟨proper', points'⟩ := problemsOf_of_extent found pos line
    have own : token.surplus =
        if kind = .numberLiteral then surplusPoints pos false lexeme else [] := by
      simp [token, Token.surplus]
    refine ⟨List.forall_mem_append.2 ⟨proper', proper⟩, ?_⟩
    rw [Scanned.surplus, Scanned.problems, List.flatMap_cons, List.filter_append, List.map_append,
      points']
    show _ ++ Scanned.surplus _ = ((token :: Scanned.tokens _).flatMap Token.surplus).map _
    rw [points, List.flatMap_cons, List.map_append, own]

/-- The characters of a token stand in the text where its span says. -/
theorem getElem?_lexeme {text : String} {t : Token} (mem : t ∈ Scanned.tokens (scan text))
    (token : t.kind ≠ .eof) (k : Nat) : t.lexeme.toList[k]? =
      if t.span.start + k < t.span.stop then text.toList[t.span.start + k]? else none := by
  obtain ⟨-, -, lexeme⟩ := (cutFrom_of_mem_scanFrom mem token).piece
  rw [lexeme, Span.slice, Span.sliceChars, String.toList_ofList, List.getElem?_take,
    List.getElem?_drop, Span.length]
  exact if_congr Nat.lt_sub_iff_add_lt' rfl rfl

/-- The character at an offset is a point in a number and has another point of the number before
it. -/
def IsSurplusPoint (text : String) (i : Nat) : Prop :=
  ∃ t ∈ Scanned.tokens (scan text), t.kind = .numberLiteral ∧ t.span.contains i = true ∧
    text.toList[i]? = some '.' ∧ ∃ j, t.span.start ≤ j ∧ j < i ∧ text.toList[j]? = some '.'

theorem mem_surplus {text : String} {t : Token} (mem : t ∈ Scanned.tokens (scan text)) {i : Nat} :
    i ∈ t.surplus ↔ t.kind = .numberLiteral ∧ t.span.contains i = true ∧
      text.toList[i]? = some '.' ∧ ∃ j, t.span.start ≤ j ∧ j < i ∧ text.toList[j]? = some '.' := by
  unfold Token.surplus
  by_cases number : t.kind = .numberLiteral
  · have char := getElem?_lexeme mem (number.trans_ne (by decide))
    rw [if_pos number, mem_surplusPoints]
    simp only [number, true_and, char, Option.ite_none_right_eq_some, Bool.false_eq_true, false_or,
      Span.contains_iff]
    constructor
    · rintro ⟨k, rfl, ⟨inside, point⟩, j, before, -, point'⟩
      exact ⟨⟨Nat.le_add_right _ _, inside⟩, point, _, Nat.le_add_right _ j, by omega, point'⟩
    · rintro ⟨⟨low, inside⟩, point, j, low', before, point'⟩
      obtain ⟨k, rfl⟩ := Nat.exists_eq_add_of_le low
      obtain ⟨k', rfl⟩ := Nat.exists_eq_add_of_le low'
      exact ⟨k, rfl, ⟨inside, point⟩, k', by omega, by omega, point'⟩
  · simp [number]

/-- **The surplus points of a text are reported**, each once and in order. -/
theorem surplus_reported (text : String) : ∃ offsets : List Nat, offsets.Pairwise (· < ·) ∧
    (∀ i, i ∈ offsets ↔ IsSurplusPoint text i) ∧
      Scanned.surplus (scan text) = offsets.map fun i => ⟨i, i + 1⟩ := by
  refine ⟨(Scanned.tokens (scan text)).flatMap Token.surplus, ?_, fun i => ?_,
    (scanFrom_points text.toList 0 1).2⟩
  · refine List.pairwise_flatMap.2 ⟨fun t _ => ?_, ?_⟩
    · unfold Token.surplus
      split
      · exact surplusPoints_ascending _ _ _
      · exact .nil
    · refine (scan_apart text).imp_of_mem fun {t u} there there' apart i mem j mem' => ?_
      obtain ⟨-, inside, -⟩ := (mem_surplus there).1 mem
      obtain ⟨-, inside', -⟩ := (mem_surplus there').1 mem'
      have stop := ((Span.contains_iff _ _).1 inside).2
      have start := ((Span.contains_iff _ _).1 inside').1
      omega
  · rw [List.mem_flatMap]
    exact exists_congr fun t => and_congr_right fun there => mem_surplus there

/-! ## Values -/

/-- A number token has the value of its lexeme. -/
theorem literal_of_number {text : String} {t : Token} (mem : t ∈ Scanned.tokens (scan text))
    (number : t.kind = .numberLiteral) :
    Number.read? (String.ofList (dropSurplusPoints t.lexeme.toList)) =
        some (numberValue t.lexeme.toList) ∧
      t.literal = some (.number (numberValue t.lexeme.toList)) := by
  have literal := literal_of_mem_scanFrom mem
  obtain ⟨-, c, rest, more, -, -, reach, lexeme, -⟩ :=
    cutFrom_of_mem_scanFrom mem (number.trans_ne (by decide))
  rw [number] at reach literal
  rw [lexeme, String.toList_ofList] at literal ⊢
  exact ⟨read?_of_extent reach, by rw [literal, literalOf, read?_of_extent reach]; rfl⟩

/-! ## Texts -/

/-- The characters that stand for a text between quotes: a line feed is written as a backslash and
the letter `n`, and everything else as itself. -/
def escape : List Char → List Char
  | [] => []
  | c :: rest => if c = '\n' then '\\' :: 'n' :: escape rest else c :: escape rest

/-- The literal for a text. -/
def writtenText (s : String) : String := String.ofList ('"' :: (escape s.toList ++ ['"']))

theorem escape_of_ne {c : Char} (plain : c ≠ '\n') (rest : List Char) :
    escape (c :: rest) = c :: escape rest := if_neg plain

theorem head?_escape (cs : List Char) : (escape cs).head? = some 'n' ↔ cs.head? = some 'n' := by
  cases cs with
  | nil => rfl
  | cons c rest =>
    by_cases newline : c = '\n'
    · simp [escape, newline]
    · simp [escape, newline]

theorem quote_mem_escape (cs : List Char) : '"' ∈ escape cs ↔ '"' ∈ cs := by
  induction cs with
  | nil => rfl
  | cons c rest ih => by_cases newline : c = '\n' <;> simp [escape, newline, ih]

theorem newline_not_mem_escape (cs : List Char) : '\n' ∉ escape cs := by
  induction cs with
  | nil => exact List.not_mem_nil
  | cons c rest ih => by_cases newline : c = '\n' <;> simp [escape, newline, ih, Ne.symm]

/-- Only a backslash in front of the letter `n` stands for something else. -/
theorem unescape_cons {c : Char} {rest : List Char} (plain : ¬ (c = '\\' ∧ rest.head? = some 'n')) :
    unescape (c :: rest) = c :: unescape rest := by
  rw [unescape]
  rintro rest' rfl rfl
  exact plain ⟨rfl, rfl⟩

/-- **What is written is read back**, exactly if it does not itself contain what stands for a line
feed. Backslashes need no escape of their own: one in front of a line feed stays in front of the
backslash that is written for it. -/
theorem unescape_escape_iff (cs : List Char) :
    unescape (escape cs) = cs ↔ ¬ ['\\', 'n'] <:+: cs := by
  induction cs with
  | nil => simp [escape, unescape]
  | cons c rest ih =>
    rw [List.infix_cons_iff, not_or, ← ih, List.cons_prefix_cons]
    by_cases newline : c = '\n'
    · simp [newline, escape, unescape]
    · have starts : ['n'] <+: rest ↔ rest.head? = some 'n' := by
        cases rest <;> simp [eq_comm]
      rw [escape_of_ne newline, starts]
      by_cases pair : c = '\\' ∧ rest.head? = some 'n'
      · -- the two characters are read as one
        obtain ⟨rfl, next⟩ := pair
        obtain ⟨more, rfl⟩ := List.head?_eq_some_iff.1 next
        simp [escape, unescape]
      · rw [unescape_cons (by rwa [head?_escape]), List.cons_inj_right]
        simp only [eq_comm (a := '\\')]
        tauto

/-- A backslash in front of the letter `n` becomes a line feed. -/
example : unescape (escape ['\\', 'n']) = ['\n'] := rfl

/-- Characters between quotes, none of them a quote, are one literal. -/
theorem scan_literal {body : List Char} (plain : '"' ∉ body) :
    let source := String.ofList ('"' :: (body ++ ['"']))
    scan source =
      [⟨[], ⟨.textLiteral, source, 1, some (.text (String.ofList (unescape body))),
          ⟨0, source.length⟩⟩⟩,
        ⟨[], .ending (1 + body.count '\n') source.length⟩] := by
  intro source
  have reach : extent '"' (body ++ ['"']) = some (.textLiteral, (body ++ ['"']).length) := by
    rw [extent, if_pos rfl, textExtent_closed plain, List.length_append]
    rfl
  have value : textBody ('"' :: (body ++ ['"'])) = body := by
    refine takeWhile_append_eq_iff.2 ⟨fun x mem => bne_iff_ne.2 fun same => plain (same ▸ mem), ?_⟩
    rintro d next
    cases next
    rfl
  have lines : ('"' :: (body ++ ['"'])).count '\n' = body.count '\n' := by simp
  have length : source.length = ('"' :: (body ++ ['"'])).length := String.length_ofList
  rw [scan, String.toList_ofList, scanFrom, if_neg (by decide), reach]
  simp only [List.take_length, List.drop_length, scanFrom, lines, length, Nat.zero_add]
  simp [problemsOf, isClosed, literalOf, value, source]

/-- A literal ends at its first quote. -/
theorem quote_not_mem_of_scan {body : List Char} {t : Token} {later : List Scanned}
    (scanned : scan (String.ofList ('"' :: (body ++ ['"']))) = ⟨[], t⟩ :: later)
    (whole : t.span.stop = body.length + 2) : '"' ∉ body := by
  rw [scan, String.toList_ofList, scanFrom, if_neg (by decide), extent, if_pos rfl] at scanned
  have takes : textExtent (body ++ ['"'] ++ []) = (body ++ ['"']).length := by
    have stop := congrArg (fun s : Scanned => s.token.span.stop) (List.cons.inj scanned).1
    have le := textExtent_le (body ++ ['"'])
    simp only [whole, List.length_cons, List.length_take_of_le le] at stop
    rw [List.append_nil, List.length_append, List.length_singleton]
    omega
  rcases closed_or_nil_of_textExtent takes with ⟨front, same, plain⟩ | ⟨none, -⟩
  · rwa [(List.append_inj' same rfl).1]
  · exact absurd (List.mem_append_right body (List.mem_singleton_self _)) none

/-- **Every text that can be written is scanned back.** The literal for a text, its line feeds
written as a backslash and the letter `n`, is scanned without problems as one literal over the whole
source on line 1, with the text for its value, and then the end on line 1; exactly if the text has
no quote, and no backslash in front of the letter `n`. -/
theorem written_text_scans_back_iff (s : String) :
    scan (writtenText s) =
        [⟨[], ⟨.textLiteral, writtenText s, 1, some (.text s), ⟨0, (writtenText s).length⟩⟩⟩,
          ⟨[], .ending 1 (writtenText s).length⟩] ↔
      '"' ∉ s.toList ∧ ¬ ['\\', 'n'] <:+: s.toList := by
  have length : (writtenText s).length = (escape s.toList).length + 2 := by
    simp only [writtenText, String.length_ofList, List.length_cons, List.length_append,
      List.length_nil]
  constructor
  · intro scanned
    have plain : '"' ∉ escape s.toList := quote_not_mem_of_scan scanned (by simp only [length])
    have value : s = String.ofList (unescape (escape s.toList)) := by
      have literals := scanned.symm.trans (scan_literal plain)
      simp only [List.cons.injEq, Scanned.mk.injEq, Token.mk.injEq, Option.some.injEq,
        Literal.text.injEq] at literals
      obtain ⟨⟨-, -, -, -, literal, -⟩, -⟩ := literals
      exact literal
    rw [← quote_mem_escape, ← unescape_escape_iff]
    exact ⟨plain, (String.toList_ofList.symm.trans (congrArg String.toList value.symm))⟩
  · rintro ⟨quote, pair⟩
    rw [← quote_mem_escape] at quote
    have lines := List.count_eq_zero.2 (newline_not_mem_escape s.toList)
    have scanned := scan_literal quote
    rw [(unescape_escape_iff _).2 pair, lines, String.ofList_toList] at scanned
    exact scanned

end Scriptlet
