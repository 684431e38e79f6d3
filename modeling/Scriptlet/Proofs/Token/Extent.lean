import Scriptlet.Token.Scan

/-!
# How far a token reaches

`extent` decides by the characters ahead how many of them a token takes. The two facts about it that
everything else rests on: it never takes more characters than there are (`extent_le`), and it looks
at the characters it takes and at the one behind them, nothing further. A token therefore stays the
same if the text behind it is exchanged, as long as the character behind it is the same, or is a line
end, or is missing (`extent_exchange`). Only an open text literal reaches over a line end.
-/

namespace Scriptlet

/-! ## Runs of characters of one class -/

section
variable {p : Char → Bool} {body tail tail' : List Char}

/-- A run takes exactly `body` if all of it belongs to the class and what follows does not. -/
theorem takeWhile_append_eq_iff :
    (body ++ tail).takeWhile p = body ↔
      (∀ x ∈ body, p x = true) ∧ ∀ d, tail.head? = some d → p d = false := by
  constructor
  · intro h
    have all : ∀ x ∈ body, p x = true := by
      intro x mem
      rw [← h] at mem
      exact List.all_eq_true.1 List.all_takeWhile x mem
    refine ⟨all, fun d next => ?_⟩
    rw [List.takeWhile_append_of_pos all, List.append_right_eq_self] at h
    cases tail with
    | nil => cases next
    | cons x rest =>
      obtain rfl : x = d := Option.some.inj next
      cases hp : p x with
      | false => rfl
      | true => rw [List.takeWhile_cons_of_pos hp] at h; cases h
  · rintro ⟨all, stop⟩
    rw [List.takeWhile_append_of_pos all]
    cases tail with
    | nil => exact List.append_nil body
    | cons d rest => rw [List.takeWhile_cons_of_neg (by simp [stop d rfl]), List.append_nil]

/-- A run as long as `body` is `body`. -/
theorem takeWhile_eq_of_length (h : ((body ++ tail).takeWhile p).length = body.length) :
    (body ++ tail).takeWhile p = body := by
  obtain ⟨rest, split⟩ := List.takeWhile_prefix (l := body ++ tail) p
  exact (List.append_inj split h).1

/-- The run stays the same in front of anything that stops it. -/
theorem takeWhile_exchange (h : (body ++ tail).takeWhile p = body)
    (stop : ∀ d, tail'.head? = some d → tail.head? = some d ∨ p d = false) :
    (body ++ tail').takeWhile p = body := by
  obtain ⟨all, stopped⟩ := takeWhile_append_eq_iff.1 h
  refine takeWhile_append_eq_iff.2 ⟨all, fun d next => ?_⟩
  exact (stop d next).elim (stopped d) id

end

/-! ## Operators -/

/-- The first character of a pair is an operator of its own. -/
theorem pairKind_eq_none {c : Char} (h : singleKind c = none) (d : Char) : pairKind c d = none := by
  unfold pairKind
  split <;> first | rfl | cases h

/-- No pair has a line end in it. -/
theorem pairKind_newline (c : Char) : pairKind c '\n' = none := by
  unfold pairKind
  split <;> first | rfl | (rename_i h; cases h)

/-- Characters that are an operator start neither a text nor a number nor a word. -/
theorem ne_of_singleKind {c : Char} {kind : TokenKind} (h : singleKind c = some kind) :
    c ≠ '"' ∧ c.isDigit = false ∧ isWordStart c = false := by
  unfold singleKind at h
  split at h <;> first | exact ⟨by decide, by decide, by decide⟩ | cases h

theorem ne_of_pairKind {c d : Char} {kind : TokenKind} (h : pairKind c d = some kind) :
    c ≠ '"' ∧ ¬ (c = '/' ∧ d = '/') := by
  unfold pairKind at h
  split at h <;> first | exact ⟨by decide, by decide⟩ | cases h

theorem pairKind_ne_eof {c d : Char} {kind : TokenKind} (h : pairKind c d = some kind) :
    kind ≠ .eof := by
  unfold pairKind at h
  split at h <;> cases h <;> simp

theorem singleKind_ne_eof {c : Char} {kind : TokenKind} (h : singleKind c = some kind) :
    kind ≠ .eof := by
  unfold singleKind at h
  split at h <;> cases h <;> simp

/-- A word is reserved or an identifier. -/
theorem TokenKind.ofWord_mem (word : String) : ofWord word ∈ identifier :: keywords := by
  unfold TokenKind.ofWord
  cases found : keywords.find? (·.friendly == word) with
  | none => exact List.mem_cons_self
  | some kind => exact List.mem_cons_of_mem _ (List.mem_of_find?_eq_some found)

theorem TokenKind.ofWord_ne_eof (word : String) : TokenKind.ofWord word ≠ .eof :=
  fun eof => absurd (eof ▸ ofWord_mem word) (by decide)

theorem isDigit_of_isWordStart {c : Char} (h : isWordStart c = true) : c.isDigit = false := by
  delta isWordStart Char.isAlpha Char.isUpper Char.isLower at h
  simp only [Bool.or_eq_true, Bool.and_eq_true, decide_eq_true_eq, beq_iff_eq, ge_iff_le] at h
  simp only [Char.isDigit, Bool.and_eq_false_iff, decide_eq_false_iff_not, ge_iff_le]
  rcases h with (h | h) | rfl
  · grind
  · grind
  · decide

/-! ## What a token takes -/

/-- The token that starts with `c` has a kind and takes some of the characters after `c`. One rule
for each class of tokens; the rules exclude each other. -/
inductive Reaches (c : Char) (rest : List Char) : TokenKind → Nat → Prop
  | text : c = '"' → Reaches c rest .textLiteral (textExtent rest)
  | comment : c = '/' → rest.head? = some '/' →
      Reaches c rest .comment (rest.takeWhile (· != '\n')).length
  | pair {d kind} : rest.head? = some d → pairKind c d = some kind → Reaches c rest kind 1
  | single {kind} : singleKind c = some kind → ¬ (c = '/' ∧ rest.head? = some '/') →
      (∀ d, rest.head? = some d → pairKind c d = none) → Reaches c rest kind 0
  | number : c.isDigit = true →
      Reaches c rest .numberLiteral (rest.takeWhile isNumberPart).length
  | word : isWordStart c = true →
      Reaches c rest (.ofWord (String.ofList (c :: rest.takeWhile isWordPart)))
        (rest.takeWhile isWordPart).length

theorem reaches_of_extent {c : Char} {rest : List Char} {kind : TokenKind} {more : Nat}
    (h : extent c rest = some (kind, more)) : Reaches c rest kind more := by
  unfold extent at h
  split at h
  · cases h
    exact .text ‹_›
  split at h
  · rename_i slashes
    cases h
    exact .comment slashes.1 slashes.2
  rename_i noComment
  split at h
  · rename_i found
    cases h
    obtain ⟨d, next, pair⟩ := Option.bind_eq_some_iff.1 found
    exact .pair next pair
  rename_i noPair
  split at h
  · rename_i found
    cases h
    exact .single found noComment fun d next => by rw [next] at noPair; exact noPair
  split at h
  · cases h
    exact .number ‹_›
  split at h
  · cases h
    exact .word ‹_›
  · cases h

/-- A character that is no operator, no quote: what starts with it is decided by its class. -/
theorem extent_of_plain {c : Char} {rest : List Char} (quote : c ≠ '"')
    (none : singleKind c = none) : extent c rest =
      if c.isDigit then some (.numberLiteral, (rest.takeWhile isNumberPart).length)
      else if isWordStart c then
        some (.ofWord (String.ofList (c :: rest.takeWhile isWordPart)),
          (rest.takeWhile isWordPart).length)
      else Option.none := by
  have slash : c ≠ '/' := by rintro rfl; cases none
  have noPair : rest.head?.bind (pairKind c) = Option.none := by
    cases rest.head? with
    | none => rfl
    | some d => exact pairKind_eq_none none d
  rw [extent, if_neg quote, if_neg (fun h => slash h.1), noPair, none]

theorem extent_of_reaches {c : Char} {rest : List Char} {kind : TokenKind} {more : Nat}
    (h : Reaches c rest kind more) : extent c rest = some (kind, more) := by
  cases h with
  | text quote => rw [extent, if_pos quote]
  | comment slash next =>
    subst slash
    rw [extent, if_neg (by decide), if_pos ⟨rfl, next⟩]
  | pair next pair =>
    obtain ⟨quote, noComment⟩ := ne_of_pairKind pair
    have different : ¬ (c = '/' ∧ rest.head? = some '/') := by
      rintro ⟨slash, same⟩
      rw [next] at same
      exact noComment ⟨slash, Option.some.inj same⟩
    rw [extent, if_neg quote, if_neg different, Option.bind_eq_some_iff.2 ⟨_, next, pair⟩]
  | single found noComment noPair =>
    have noPair : rest.head?.bind (pairKind c) = none := by
      cases next : rest.head? with
      | none => rfl
      | some d => exact noPair d next
    rw [extent, if_neg (ne_of_singleKind found).1, if_neg noComment, noPair, found]
  | number digit =>
    have none : singleKind c = none := by
      cases found : singleKind c with
      | none => rfl
      | some kind => rw [(ne_of_singleKind found).2.1] at digit; cases digit
    rw [extent_of_plain (by rintro rfl; cases digit) none, if_pos digit]
  | word start =>
    have none : singleKind c = none := by
      cases found : singleKind c with
      | none => rfl
      | some kind => rw [(ne_of_singleKind found).2.2] at start; cases start
    rw [extent_of_plain (by rintro rfl; cases start) none, isDigit_of_isWordStart start,
      if_neg (by decide), if_pos start]

/-! ### Text literals -/

theorem textExtent_closed {front after : List Char} (open_ : '"' ∉ front) :
    textExtent (front ++ '"' :: after) = front.length + 1 := by
  have run : (front ++ '"' :: after).takeWhile (· != '"') = front := by
    refine takeWhile_append_eq_iff.2 ⟨fun x mem => ?_, fun d next => ?_⟩
    · exact bne_iff_ne.2 fun same => open_ (same ▸ mem)
    · obtain rfl : '"' = d := Option.some.inj next
      rfl
  rw [textExtent, run, if_pos (by simp)]

theorem textExtent_open {rest : List Char} (open_ : '"' ∉ rest) : textExtent rest = rest.length := by
  have run : (rest ++ []).takeWhile (· != '"') = rest :=
    takeWhile_append_eq_iff.2
      ⟨fun x mem => bne_iff_ne.2 fun same => open_ (same ▸ mem), fun d next => by cases next⟩
  rw [List.append_nil] at run
  rw [textExtent, run, if_neg (Nat.lt_irrefl _)]

theorem textExtent_le (rest : List Char) : textExtent rest ≤ rest.length := by
  by_cases closed : '"' ∈ rest
  · obtain ⟨front, after, rfl, open_⟩ := List.eq_append_cons_of_mem closed
    rw [textExtent_closed open_, List.length_append, List.length_cons]
    omega
  · exact Nat.le_of_eq (textExtent_open closed)

/-- A literal that takes exactly `body` either closes with it or finds nothing behind it. -/
theorem closed_or_nil_of_textExtent {body tail : List Char}
    (h : textExtent (body ++ tail) = body.length) :
    (∃ front, body = front ++ ['"'] ∧ '"' ∉ front) ∨ '"' ∉ body ∧ tail = [] := by
  by_cases inside : '"' ∈ body
  · obtain ⟨front, after, rfl, open_⟩ := List.eq_append_cons_of_mem inside
    rw [List.append_assoc, List.cons_append, textExtent_closed open_, List.length_append,
      List.length_cons] at h
    obtain rfl : after = [] := List.length_eq_zero_iff.1 (by omega)
    exact .inl ⟨front, rfl, open_⟩
  · refine .inr ⟨inside, ?_⟩
    by_cases later : '"' ∈ tail
    · obtain ⟨front, after, rfl, open_⟩ := List.eq_append_cons_of_mem later
      rw [← List.append_assoc, textExtent_closed (by simp [inside, open_]),
        List.length_append] at h
      omega
    · rw [textExtent_open (by simp [inside, later]), List.length_append] at h
      exact List.length_eq_zero_iff.1 (by omega)

/-! ### All tokens -/

section
variable {c : Char} {rest : List Char} {kind : TokenKind} {more : Nat}

/-- A token takes no more characters than there are. -/
theorem extent_le (h : extent c rest = some (kind, more)) : more ≤ rest.length := by
  cases reaches_of_extent h with
  | text => exact textExtent_le rest
  | comment => exact (List.takeWhile_prefix _).length_le
  | pair next =>
    cases rest with
    | nil => cases next
    | cons d rest => exact Nat.succ_le_succ (Nat.zero_le _)
  | single => exact Nat.zero_le _
  | number => exact (List.takeWhile_prefix _).length_le
  | word => exact (List.takeWhile_prefix _).length_le

/-- The end of a text is no token that takes characters. -/
theorem extent_ne_eof (h : extent c rest = some (kind, more)) : kind ≠ .eof := by
  cases reaches_of_extent h with
  | text | comment | number => simp
  | pair next pair => exact pairKind_ne_eof pair
  | single found => exact singleKind_ne_eof found
  | word => exact TokenKind.ofWord_ne_eof _

end

/-- **A token looks one character ahead.** If a token takes exactly `body`, it does so in front of
every other text that is empty, starts with the same character, or starts with a line end; in front
of a line end a text literal has to be closed. -/
theorem extent_exchange {c : Char} {body tail tail' : List Char} {kind : TokenKind}
    (h : extent c (body ++ tail) = some (kind, body.length))
    (stop : ∀ d, tail'.head? = some d →
      tail.head? = some d ∨ d = '\n' ∧ (kind = .textLiteral → '"' ∈ body)) :
    extent c (body ++ tail') = some (kind, body.length) := by
  -- a run of one class that took `body` takes it again
  have run {p : Char → Bool} (newline : p '\n' = false)
      (length : body.length = ((body ++ tail).takeWhile p).length) :
      (body ++ tail').takeWhile p = (body ++ tail).takeWhile p := by
    have same := takeWhile_eq_of_length length.symm
    rw [same]
    refine takeWhile_exchange same fun d next => ?_
    rcases stop d next with before | ⟨rfl, -⟩
    · exact .inl before
    · exact .inr newline
  refine extent_of_reaches ?_
  generalize hmore : body.length = more at h
  cases reaches_of_extent h with
  | text quote =>
    rcases closed_or_nil_of_textExtent hmore.symm with ⟨front, rfl, open_⟩ | ⟨open_, rfl⟩
    · have closed (after : List Char) : textExtent (front ++ ['"'] ++ after) = front.length + 1 := by
        rw [List.append_assoc]
        exact textExtent_closed open_
      rw [closed, ← closed tail']
      exact .text quote
    · -- nothing can stand behind an open literal
      obtain rfl : tail' = [] := by
        cases tail' with
        | nil => rfl
        | cons d after =>
          rcases stop d rfl with before | ⟨-, closed⟩
          · cases before
          · exact absurd (closed rfl) open_
      exact .text quote
  | comment slash next =>
    rw [← run rfl hmore]
    refine .comment slash ?_
    cases body with
    | nil =>
      -- the second slash is part of the comment
      cases tail with
      | nil => cases next
      | cons d after => cases next; cases hmore
    | cons d body => exact next
  | @pair d _ next pair =>
    obtain ⟨x, rfl⟩ := List.length_eq_one_iff.1 hmore
    exact .pair next pair
  | single found noComment noPair =>
    obtain rfl := List.length_eq_zero_iff.1 hmore
    refine .single found ?_ fun d next => ?_
    · rintro ⟨slash, next⟩
      rcases stop '/' next with before | ⟨newline, -⟩
      · exact noComment ⟨slash, before⟩
      · cases newline
    · rcases stop d next with before | ⟨rfl, -⟩
      · exact noPair d before
      · exact pairKind_newline c
  | number digit =>
    rw [← run rfl hmore]
    exact .number digit
  | word start =>
    rw [← run rfl hmore]
    exact .word start

end Scriptlet
