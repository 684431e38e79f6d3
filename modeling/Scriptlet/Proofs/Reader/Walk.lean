import Scriptlet.Proofs.Reader.Law
import Scriptlet.Proofs.Reader.Sentence

/-!
# The way through the tokens

A reader only ever moves forward, one token at a time, and never past the end token
(`Stream.Forward`). This is a law of reading, so it holds of every production, whatever it ends with
(`Reading.forward`, `PageReading.forward`). Problems are only ever added to those recorded before.

Two steps are sure to get somewhere: an expression that was read consists of one token at least, and
a declaration with its recovery passes one even if nothing could be read.
-/

namespace Scriptlet

namespace Stream

variable {s s₁ s' : Stream}

theorem length_tokens (s : Stream) : s.tokens.length = s.position + 1 + s.ahead.length := by
  simp [tokens, position]
  omega

/-- The token under the position stands at the position. -/
theorem getElem?_position (s : Stream) : s.tokens[s.position]? = some s.here := by
  simp [tokens, position]

/-! ## Forward -/

/-- From the first stream to the second the position moves forward over the same tokens, none of
which ends them. -/
structure Forward (s s' : Stream) : Prop where
  tokens : s'.tokens = s.tokens
  forth : s.position ≤ s'.position
  inside : ∀ i t, s.position ≤ i → i < s'.position → s.tokens[i]? = some t → t.kind ≠ .eof

namespace Forward

theorem refl (s : Stream) : s.Forward s :=
  ⟨rfl, Nat.le_refl _, fun _ _ low high => absurd high (Nat.not_lt.2 low)⟩

theorem trans (h : s.Forward s₁) (h' : s₁.Forward s') : s.Forward s' where
  tokens := h'.tokens.trans h.tokens
  forth := Nat.le_trans h.forth h'.forth
  inside i t low high found := by
    by_cases first : i < s₁.position
    · exact h.inside i t low first found
    · exact h'.inside i t (Nat.not_lt.1 first) high (h.tokens ▸ found)

/-- The position is always that of a token. -/
theorem valid (h : s.Forward s') : s'.position < s.tokens.length := by
  rw [← h.tokens, length_tokens]
  omega

theorem here_eq (h : s.Forward s') (same : s'.position = s.position) : s'.here = s.here := by
  have found := s'.getElem?_position
  rw [h.tokens, same, getElem?_position] at found
  exact (Option.some.inj found).symm

/-- At the end nothing moves. -/
theorem position_at_end (h : s.Forward s') (eof : s.kind = .eof) : s'.position = s.position := by
  refine Nat.le_antisymm (Nat.not_lt.1 fun moved => ?_) h.forth
  exact h.inside s.position s.here (Nat.le_refl _) moved s.getElem?_position eof

theorem at_end (h : s.Forward s') (eof : s.kind = .eof) : s'.kind = .eof := by
  rwa [kind, h.here_eq (h.position_at_end eof)]

theorem ahead_le (h : s.Forward s') : s'.ahead.length ≤ s.ahead.length := by
  have lengths := congrArg List.length h.tokens
  rw [length_tokens, length_tokens] at lengths
  have forth := h.forth
  omega

theorem ahead_lt (h : s.Forward s') (moved : s.position < s'.position) :
    s'.ahead.length < s.ahead.length := by
  have lengths := congrArg List.length h.tokens
  rw [length_tokens, length_tokens] at lengths
  omega

end Forward

theorem forward_advance (s : Stream) : s.Forward s.advance := by
  by_cases stays : s.advance = s
  · rw [stays]
    exact .refl s
  · have here : s.kind ≠ .eof := by
      intro eof
      exact stays (if_pos (by simpa [atEnd] using eof))
    refine ⟨s.tokens_advance, s.position_le_advance, fun i t low high found => ?_⟩
    have one : s.advance.position ≤ s.position + 1 := by
      unfold advance
      split
      · exact Nat.le_succ _
      · split
        · exact Nat.le_succ _
        · exact Nat.le_of_eq rfl
    obtain rfl : i = s.position := by omega
    rw [getElem?_position, Option.some.injEq] at found
    exact found ▸ here

theorem Passes.forward {ts : List Token} (h : s.Passes ts s') : s.Forward s' := by
  induction h with
  | nil => exact .refl _
  | @cons s _ _ _ _ ih => exact s.forward_advance.trans ih

/-! ## The end token -/

/-- An end token is under the position or after it. -/
def Ends (s : Stream) : Prop := ∃ t ∈ s.here :: s.ahead, t.kind = .eof

theorem Forward.ends (h : s.Forward s') (ends : s.Ends) : s'.Ends := by
  obtain ⟨t, mem, eof⟩ := ends
  obtain ⟨j, at_⟩ := List.getElem?_of_mem mem
  have front {u : Stream} (j : Nat) : u.tokens[u.position + j]? = (u.here :: u.ahead)[j]? := by
    rw [Stream.tokens, List.getElem?_append_right (by simp [position])]
    simp [position]
  have found : s.tokens[s.position + j]? = some t := (front j).trans at_
  have later : s'.position ≤ s.position + j := by
    refine Nat.not_lt.1 fun early => ?_
    exact h.inside _ t (Nat.le_add_right _ _) early found eof
  obtain ⟨k, same⟩ := Nat.exists_eq_add_of_le later
  rw [← h.tokens, same, front] at found
  exact ⟨t, List.mem_of_getElem? found, eof⟩

theorem ends_ofTokens (tokens : List Token) : (ofTokens tokens).Ends := by
  rw [Ends, here_cons_ahead_ofTokens]
  exact exists_eof_withEnd _

/-- Before the end, moving on gets somewhere. -/
theorem position_advance (ends : s.Ends) (here : s.kind ≠ .eof) :
    s.advance.position = s.position + 1 := by
  obtain ⟨t, mem, eof⟩ := ends
  unfold advance
  rw [if_neg (by simpa [atEnd] using here)]
  split
  · next none =>
    rw [none, List.mem_singleton] at mem
    subst mem
    exact absurd eof here
  · rfl

theorem ahead_advance (ends : s.Ends) (here : s.kind ≠ .eof) :
    s.ahead.length = s.advance.ahead.length + 1 := by
  have lengths := congrArg List.length s.tokens_advance
  rw [length_tokens, length_tokens, position_advance ends here] at lengths
  omega

/-! ## Skipping -/

theorem position_advance_of_ne (moves : s.advance ≠ s) : s.advance.position = s.position + 1 := by
  unfold advance at moves ⊢
  split at moves
  · exact absurd rfl moves
  · next more =>
    rw [if_neg more]
    split at moves
    · exact absurd rfl moves
    · rfl

section

variable {set : KindSet} {n k : Nat} {boundary : Boundary}

/-- Skipping to a token of a set, move by move. -/
inductive Seeks (set : KindSet) : Stream → Nat → Stream → Prop
  | here {s : Stream} (stops : set.contains s.kind = true) : Seeks set s 0 s
  | move {s s' : Stream} {k : Nat} (other : set.contains s.kind = false)
      (rest : Seeks set s.advance k s') : Seeks set s (k + 1) s'

/-- A search finds what is within its bound, and nothing else. -/
theorem seek_eq_some_iff : seek set n s = some (k, s') ↔ k ≤ n ∧ s.Seeks set k s' := by
  constructor
  · intro found
    induction n generalizing s k with
    | zero =>
      unfold seek at found
      split at found
      · next stops =>
        cases found
        exact ⟨Nat.le_refl 0, .here stops⟩
      · cases found
    | succ n ih =>
      unfold seek at found
      split at found
      · next stops =>
        cases found
        exact ⟨Nat.zero_le _, .here stops⟩
      · next other =>
        obtain ⟨⟨j, t⟩, found, same⟩ := Option.map_eq_some_iff.1 found
        cases same
        obtain ⟨short, rest⟩ := ih found
        exact ⟨Nat.succ_le_succ short, .move (Bool.eq_false_iff.2 other) rest⟩
  · rintro ⟨short, seeks⟩
    induction seeks generalizing n with
    | here stops => cases n <;> simp [seek, stops]
    | move other rest ih =>
      obtain ⟨n, rfl⟩ := Nat.exists_eq_succ_of_ne_zero (Nat.ne_zero_of_lt short)
      simp [seek, other, ih (Nat.le_of_succ_le_succ short)]

/-- What skipping finds: a token of the set, behind so many others as were skipped, none of which is
in the set. -/
structure Skips (set : KindSet) (s : Stream) (skipped : Nat) (found : Stream) : Prop where
  way : s.Forward found
  position : found.position = s.position + skipped
  stops : set.contains found.kind = true
  first : ∀ i t, s.position ≤ i → i < found.position → s.tokens[i]? = some t →
    set.contains t.kind = false

namespace Seeks

/-- Where nothing moves, skipping would go on for ever. -/
theorem advance_ne (rest : s.advance.Seeks set k s') (other : set.contains s.kind = false) :
    s.advance ≠ s := by
  intro stuck
  rw [stuck] at rest
  induction rest with
  | here stops =>
    rw [stops] at other
    cases other
  | move _ _ ih => exact ih (stuck.symm ▸ other) (congrArg advance stuck)

theorem skips (seeks : s.Seeks set k s') : s.Skips set k s' := by
  induction seeks with
  | here stops => exact ⟨.refl _, rfl, stops, fun i t low high => absurd high (Nat.not_lt.2 low)⟩
  | @move s s' k other rest ih =>
    have one := position_advance_of_ne (rest.advance_ne other)
    refine ⟨s.forward_advance.trans ih.way, ?_, ih.stops, fun i t low high there => ?_⟩
    · rw [ih.position, one]
      omega
    · obtain rfl | behind := Nat.eq_or_lt_of_le low
      · rw [getElem?_position, Option.some.injEq] at there
        exact there ▸ other
      · exact ih.first i t (one ▸ behind) high (s.tokens_advance ▸ there)

/-- Every token that is skipped lies ahead, or is the one under the position. -/
theorem le_ahead (seeks : s.Seeks set k s') : k ≤ s.ahead.length := by
  have lengths := congrArg List.length seeks.skips.way.tokens
  rw [length_tokens, length_tokens, seeks.skips.position] at lengths
  omega

end Seeks

theorem synchronize_eq_some_iff : s.synchronize set = some (k, s') ↔ s.Seeks set k s' :=
  seek_eq_some_iff.trans (and_iff_right_of_imp Seeks.le_ahead)

/-- If skipping finds nothing, no bound does. -/
theorem seek_eq_none (nothing : s.synchronize set = none) (n : Nat) : seek set n s = none := by
  refine Option.eq_none_iff_forall_ne_some.2 fun (k, found) result => ?_
  rw [synchronize_eq_some_iff.2 (seek_eq_some_iff.1 result).2] at nothing
  cases nothing

/-- **Skipping to a set with the end in it stops.** -/
theorem exists_synchronize (ends : s.Ends) (eof : set.contains .eof = true) :
    ∃ skipped found, s.synchronize set = some (skipped, found) := by
  have seeks (n : Nat) : ∀ s : Stream, s.Ends → s.ahead.length = n → ∃ k s', s.Seeks set k s' := by
    induction n with
    | zero =>
      intro s ends last
      obtain ⟨t, mem, atEnd⟩ := ends
      rw [List.length_eq_zero_iff.1 last, List.mem_singleton] at mem
      exact ⟨0, s, .here (by rwa [kind, ← mem, atEnd])⟩
    | succ n ih =>
      intro s ends more
      cases here : set.contains s.kind with
      | true => exact ⟨0, s, .here here⟩
      | false =>
        have inner : s.kind ≠ .eof := by
          intro atEnd
          rw [atEnd, eof] at here
          cases here
        have step := ahead_advance ends inner
        obtain ⟨k, s', rest⟩ := ih s.advance (s.forward_advance.ends ends) (by omega)
        exact ⟨k + 1, s', .move here rest⟩
  obtain ⟨k, s', found⟩ := seeks _ s ends rfl
  exact ⟨k, s', synchronize_eq_some_iff.2 found⟩

theorem synchronize_boundary (ends : s.Ends) (boundary : Boundary) :
    ∃ skipped, s.synchronize boundary.toKindSet = some (skipped, s.toBoundary boundary) := by
  obtain ⟨skipped, found, result⟩ := exists_synchronize ends boundary.contains_eof
  exact ⟨skipped, by rw [toBoundary, result]⟩

theorem toBoundary_of_seeks (seeks : s.Seeks boundary.toKindSet k s') :
    s.toBoundary boundary = s' := by
  rw [toBoundary, synchronize_eq_some_iff.2 seeks]

/-- Skipping goes to a boundary, or stays where there is none. -/
theorem toBoundary_cases (s : Stream) (boundary : Boundary) :
    (∃ k, s.Seeks boundary.toKindSet k (s.toBoundary boundary)) ∨ s.toBoundary boundary = s := by
  unfold toBoundary
  split
  · next skipped found result => exact .inl ⟨skipped, synchronize_eq_some_iff.1 result⟩
  · exact .inr rfl

/-- The last token cannot be passed. -/
theorem toBoundary_of_last (boundary : Boundary) (last : s.ahead = []) :
    s.toBoundary boundary = s := by
  rcases s.toBoundary_cases boundary with ⟨k, seeks⟩ | stays
  · have short := seeks.le_ahead
    rw [last, List.length_nil, Nat.le_zero] at short
    subst short
    generalize s.toBoundary boundary = s' at seeks
    cases seeks
    rfl
  · exact stays

theorem forward_toBoundary (s : Stream) (boundary : Boundary) :
    s.Forward (s.toBoundary boundary) := by
  rcases s.toBoundary_cases boundary with ⟨k, seeks⟩ | stays
  · exact seeks.skips.way
  · rw [stays]
    exact .refl s

/-- Reading goes on at a boundary. -/
theorem toBoundary_stops (ends : s.Ends) (boundary : Boundary) :
    boundary.contains (s.toBoundary boundary).kind = true := by
  obtain ⟨skipped, found⟩ := synchronize_boundary ends boundary
  exact (synchronize_eq_some_iff.1 found).skips.stops

end

end Stream

/-! ## Readings -/

/-- A reading that moves forward, whatever it ends with, and if it fails, does so at the token under
the position. -/
structure Reading.Walks {α : Type} (r : Reading α) : Prop where
  ok : ∀ s a s', r s = .ok a s' → s.Forward s'
  error : ∀ s e s', r s = .error e s' → s.Forward s'
  stands : ∀ s e s', r s = .error e s' → e = .atToken e.expected s'.here

namespace Reading

variable {α β : Type} {r : Reading α}

theorem Walks.bind {k : α → Reading β} (hr : r.Walks) (hk : ∀ a, (k a).Walks) :
    (r >>= k).Walks where
  ok s b s' read := by
    obtain ⟨a, s₁, first, second⟩ := bind_eq_ok read
    exact (hr.ok s a s₁ first).trans ((hk a).ok s₁ b s' second)
  error s e s' failed := by
    rcases bind_eq_error failed with failed | ⟨a, s₁, first, failed⟩
    · exact hr.error s e s' failed
    · exact (hr.ok s a s₁ first).trans ((hk a).error s₁ e s' failed)
  stands s e s' failed := by
    rcases bind_eq_error failed with failed | ⟨a, s₁, -, failed⟩
    · exact hr.stands s e s' failed
    · exact (hk a).stands s₁ e s' failed

/-- A reading that succeeds. -/
theorem walks_of_ok (h : ∀ s, ∃ a s', r s = .ok a s' ∧ s.Forward s') : r.Walks where
  ok s a s' read := by
    obtain ⟨b, s₁, same, way⟩ := h s
    rw [same] at read
    cases read
    exact way
  error s e s' failed := by
    obtain ⟨b, s₁, same, -⟩ := h s
    rw [same] at failed
    cases failed
  stands s e s' failed := by
    obtain ⟨b, s₁, same, -⟩ := h s
    rw [same] at failed
    cases failed

theorem walks_fail (expected : Expectation) : (fail expected : Reading α).Walks where
  ok s a s' read := by cases read
  error s e s' failed := by
    cases failed
    exact .refl s
  stands s e s' failed := by
    cases failed
    rfl

theorem walks_here : here.Walks := walks_of_ok fun s => ⟨_, s, rfl, .refl s⟩

/-- Moving forward is a law. -/
def forward : Reading.Law where
  Holds r _ := r.Walks
  Meets _ := True
  value a := walks_of_ok fun s => ⟨a, s, rfl, .refl s⟩
  failure expected _ := walks_fail expected
  tooDeep _ := walks_fail _
  here hk := walks_here.bind fun t => hk t trivial
  next := walks_of_ok fun s => ⟨_, _, rfl, s.forward_advance⟩
  sequence hr hk := hr.bind hk

theorem walks_expr (n : Nat) : (Expr.read n).Walks :=
  (Expr.lawful forward (Nat.le_refl n)).read

end Reading

/-- The stream moved forward, and problems were only added. -/
structure Page.Forward (page page' : Page) : Prop where
  stream : page.stream.Forward page'.stream
  errors : page.errors <+: page'.errors

theorem Page.Forward.refl (page : Page) : page.Forward page := ⟨.refl _, List.prefix_rfl⟩

theorem Page.Forward.trans {page page₁ page' : Page} (h : page.Forward page₁)
    (h' : page₁.Forward page') : page.Forward page' :=
  ⟨h.stream.trans h'.stream, h.errors.trans h'.errors⟩

/-- A reading of declarations that moves forward, whatever it ends with, and if it fails, does so at
the token under the position. -/
structure PageReading.Walks {α : Type} (r : PageReading α) : Prop where
  ok : ∀ page a page', r page = .ok a page' → page.Forward page'
  error : ∀ page e page', r page = .error e page' → page.Forward page'
  stands : ∀ page e page', r page = .error e page' → e = .atToken e.expected page'.stream.here

/-- Recovering moves forward too. -/
theorem Page.forward_recover {start : Stream} {page : Page} (boundary : Boundary) (e : ReadError) :
    page.Forward (page.recover start boundary e) where
  stream := by
    unfold Page.recover
    split
    · exact page.stream.forward_advance.trans (Stream.forward_toBoundary _ boundary)
    · exact page.stream.forward_toBoundary boundary
  errors := List.prefix_append _ _

namespace PageReading

variable {α β : Type} {r : PageReading α}

theorem Walks.bind {k : α → PageReading β} (hr : r.Walks) (hk : ∀ a, (k a).Walks) :
    (r >>= k).Walks where
  ok page b page' read := by
    obtain ⟨a, page₁, first, second⟩ := bind_eq_ok read
    exact (hr.ok page a page₁ first).trans ((hk a).ok page₁ b page' second)
  error page e page' failed := by
    rcases bind_eq_error failed with failed | ⟨a, page₁, first, failed⟩
    · exact hr.error page e page' failed
    · exact (hr.ok page a page₁ first).trans ((hk a).error page₁ e page' failed)
  stands page e page' failed := by
    rcases bind_eq_error failed with failed | ⟨a, page₁, -, failed⟩
    · exact hr.stands page e page' failed
    · exact (hk a).stands page₁ e page' failed

theorem walks_lift {r : Reading α} (h : r.Walks) : (liftM r : PageReading α).Walks where
  ok page a page' read := by
    obtain ⟨s, first, rfl⟩ := lift_eq_ok read
    exact ⟨h.ok _ _ _ first, List.prefix_rfl⟩
  error page e page' failed := by
    obtain ⟨s, first, rfl⟩ := lift_eq_error failed
    exact ⟨h.error _ _ _ first, List.prefix_rfl⟩
  stands page e page' failed := by
    obtain ⟨s, first, rfl⟩ := lift_eq_error failed
    exact h.stands _ _ _ first

theorem Walks.recovering (h : r.Walks) (boundary : Boundary) :
    (recovering boundary r).Walks where
  ok page o page' read := by
    obtain ⟨a, -, read⟩ | ⟨e, page₁, -, failed, rfl⟩ := recovering_eq_ok read
    · exact h.ok page a page' read
    · exact (h.error page e page₁ failed).trans (Page.forward_recover boundary e)
  error page e page' failed := absurd failed recovering_ne_error
  stands page e page' failed := absurd failed recovering_ne_error

/-- Moving forward is a law of declarations too. -/
def forward : PageReading.Law Reading.forward where
  Holds r _ := r.Walks
  lift h := walks_lift h
  tooDeep _ := walks_lift (Reading.walks_fail .lessNesting)
  sequence hr hk := hr.bind hk
  recovering boundary h := h.recovering boundary

end PageReading

theorem Stmt.walks (mode : Mode) (n : Nat) : Stmt.Lawful PageReading.forward mode mode n n :=
  Stmt.lawful PageReading.forward (Reading.forward.terminator mode) (Nat.le_refl n)

/-! ## Getting somewhere -/

/-- Moving past a token before the end and then forward gets somewhere. -/
theorem Stream.Forward.moved {s s' : Stream} (ends : s.Ends) (here : s.kind ≠ .eof)
    (h : s.advance.Forward s') : s.position < s'.position := by
  have one := Stream.position_advance ends here
  have forth := h.forth
  omega

/-- An expression that was read consists of one token at least. -/
theorem Expr.moved_of_read {n : Nat} {s s' : Stream} {e : Expr} (ends : s.Ends)
    (read : Expr.read n s = .ok e s') : s.position < s'.position := by
  obtain ⟨ts, passed, yields⟩ := (derives_of_read read).yields
  cases passed with
  | nil => exact absurd rfl yields.ne_nil
  | cons here rest => exact rest.forward.moved ends here

namespace PageReading

variable {α : Type} {r : PageReading α} {page page' : Page}

/-- The page on which a reading ends, with a value or without. -/
def after (r : PageReading α) (page : Page) : Page :=
  match r page with
  | .ok _ page' => page'
  | .error _ page' => page'

theorem after_of_ok {a : α} (h : r page = .ok a page') : r.after page = page' := by
  rw [after, h]

theorem after_of_error {e : ReadError} (h : r page = .error e page') : r.after page = page' := by
  rw [after, h]

theorem Walks.after (h : r.Walks) (page : Page) : page.Forward (r.after page) := by
  cases ended : r page with
  | ok a page' => exact after_of_ok ended ▸ h.ok page a page' ended
  | error e page' => exact after_of_error ended ▸ h.error page e page' ended

theorem run_kind_bind {k : TokenKind → PageReading α} :
    (liftM Reading.kind >>= k) page = k page.stream.kind page := rfl

theorem after_kind_bind {k : TokenKind → PageReading α} :
    (liftM Reading.kind >>= k).after page = (k page.stream.kind).after page := rfl

/-- The first token is passed, whatever comes of those behind it. -/
theorem passed_next_bind {k : Token → PageReading α} (hk : ∀ t, (k t).Walks)
    (ends : page.stream.Ends) (here : page.stream.kind ≠ .eof) :
    page.stream.position < ((liftM Reading.next >>= k).after page).stream.position :=
  ((hk page.stream.here).after { page with stream := page.stream.advance }).stream.moved ends here

theorem moved_expr_bind {n : Nat} {k : Expr → PageReading α} (hk : ∀ e, (k e).Walks)
    (ends : page.stream.Ends) {a : α} (read : (liftM (Expr.read n) >>= k) page = .ok a page') :
    page.stream.position < page'.stream.position := by
  obtain ⟨e, page₁, first, second⟩ := bind_eq_ok read
  obtain ⟨s, expr, rfl⟩ := lift_eq_ok first
  have rest := (hk e).ok _ a page' second
  exact Nat.lt_of_lt_of_le (Expr.moved_of_read ends expr) rest.stream.forth

end PageReading

namespace Stmt

open PageReading

variable {mode : Mode} {n : Nat} {page page' : Page}

/-- The kinds with which a statement starts that is no expression and declares nothing. -/
def opensPlain : TokenKind → Bool
  | .leftBrace | .kwIf | .kwWhile | .kwReturn => true
  | _ => false

/-- The kinds with which a declaration starts that is no expression. -/
def opens : TokenKind → Bool
  | .kwVar | .kwConst | .kwFunction | .kwClass => true
  | kind => opensPlain kind

/-- A statement that starts with a keyword or a brace passes it, whether it can be read or not. -/
theorem passed_readPlain (mode : Mode) (n : Nat) (ends : page.stream.Ends)
    (start : opensPlain page.stream.kind = true)
    (deep : ∀ e page', Stmt.readPlain mode n page = .error e page' → e.expected ≠ .lessNesting) :
    page.stream.position < ((Stmt.readPlain mode n).after page).stream.position := by
  cases n with
  | zero => exact absurd rfl (deep _ _ rfl)
  | succ n =>
    let P := PageReading.forward
    have laws := Stmt.walks mode n
    have expr := P.expr (Nat.le_refl n)
    have here : page.stream.kind ≠ .eof := fun eof => by simp [eof, opensPlain] at start
    unfold Stmt.readPlain
    rw [after_kind_bind]
    cases found : page.stream.kind <;> rw [found] at start <;> try exact absurd start (by decide)
    case leftBrace =>
      exact passed_next_bind (fun _ => Walks.bind laws.readBlock fun _ => P.value _) ends here
    case kwIf =>
      refine passed_next_bind (fun _ => Walks.bind (P.expect _ _ (by decide)) fun _ => ?_) ends here
      refine Walks.bind expr fun _ => Walks.bind (P.expect _ _ (by decide)) fun _ => ?_
      refine Walks.bind laws.readPlain fun _ => Walks.bind (P.eat _) fun more => ?_
      cases more with
      | true => exact Walks.bind laws.readPlain fun _ => P.value _
      | false => exact P.value _
    case kwWhile =>
      refine passed_next_bind (fun _ => Walks.bind (P.expect _ _ (by decide)) fun _ => ?_) ends here
      refine Walks.bind expr fun _ => Walks.bind (P.expect _ _ (by decide)) fun _ => ?_
      exact Walks.bind laws.readPlain fun _ => P.value _
    case kwReturn =>
      have terminator := Reading.forward.terminator mode
      refine passed_next_bind (fun t => ?_) ends here
      exact P.lift (Reading.forward.returning terminator t.span (Nat.le_refl n))

theorem moved_readPlain (ends : page.stream.Ends) {st : Stmt}
    (read : Stmt.readPlain mode n page = .ok st page') :
    page.stream.position < page'.stream.position := by
  by_cases start : opensPlain page.stream.kind = true
  · have passed := passed_readPlain mode n ends start
      fun e page₁ failed => by rw [read] at failed; cases failed
    rwa [after_of_ok read] at passed
  · cases n with
    | zero => cases read
    | succ n =>
      have terminator :=
        PageReading.forward.lift (Reading.forward.terminator mode .expressionEnd (by decide))
      unfold Stmt.readPlain at read
      rw [run_kind_bind] at read
      cases found : page.stream.kind <;> rw [found] at start read <;> try exact absurd rfl start
      all_goals
        exact moved_expr_bind (fun _ => Walks.bind terminator fun _ => PageReading.forward.value _)
          ends read

/-- A declaration that starts with a keyword or a brace passes it, whether it can be read or not. -/
theorem passed_read (mode : Mode) (n : Nat) (ends : page.stream.Ends)
    (start : opens page.stream.kind = true)
    (deep : ∀ e page', Stmt.read mode n page = .error e page' → e.expected ≠ .lessNesting) :
    page.stream.position < ((Stmt.read mode n).after page).stream.position := by
  cases n with
  | zero => exact absurd rfl (deep _ _ rfl)
  | succ n =>
    let P := PageReading.forward
    have laws := Stmt.walks mode n
    have here : page.stream.kind ≠ .eof := fun eof => by simp [eof, opens, opensPlain] at start
    have binding (constant : Bool) :=
      P.lift (Reading.forward.binding (Reading.forward.terminator mode) constant (Nat.le_refl n))
    unfold Stmt.read at deep ⊢
    simp only [run_kind_bind] at deep
    rw [after_kind_bind]
    have plain := passed_readPlain mode n ends
    cases found : page.stream.kind <;> rw [found] at start deep plain <;>
      try exact absurd start (by decide)
    case kwVar => exact passed_next_bind (fun _ => binding false) ends here
    case kwConst => exact passed_next_bind (fun _ => binding true) ends here
    case kwFunction =>
      refine passed_next_bind (fun _ => ?_) ends here
      refine Walks.bind (P.expect _ _ (by decide)) fun name => ?_
      exact Walks.bind (laws.readFunction name.name false) fun _ => P.value _
    case kwClass =>
      exact passed_next_bind (fun _ => Walks.bind laws.readClass fun _ => P.value _) ends here
    all_goals exact plain start deep

/-- A declaration that was read consists of one token at least. -/
theorem moved_read (ends : page.stream.Ends) {st : Stmt}
    (read : Stmt.read mode n page = .ok st page') :
    page.stream.position < page'.stream.position := by
  by_cases start : opens page.stream.kind = true
  · have passed := passed_read mode n ends start
      fun e page₁ failed => by rw [read] at failed; cases failed
    rwa [after_of_ok read] at passed
  · cases n with
    | zero => cases read
    | succ n =>
      unfold Stmt.read at read
      rw [run_kind_bind] at read
      cases found : page.stream.kind <;> rw [found] at start read <;> try exact absurd rfl start
      all_goals exact moved_readPlain ends read

/-- With its recovery a declaration always ends, and before the end it passes a token, whether it
could be read or not. -/
theorem recovering_moves (boundary : Boundary) {page : Page} (ends : page.stream.Ends)
    (here : page.stream.kind ≠ .eof) :
    ∃ outcome page', recovering boundary (Stmt.read mode n) page = .ok outcome page' ∧
      page.stream.position < page'.stream.position := by
  cases first : Stmt.read mode n page with
  | ok st page₁ =>
    exact ⟨some st, page₁, recovering_of_ok first, moved_read ends first⟩
  | error e page₁ =>
    refine ⟨none, _, recovering_of_error first, ?_⟩
    have way := ((Stmt.walks mode n).read.error page e page₁ first).stream
    unfold Page.recover
    split
    · next stays =>
      -- nothing was passed, so the token under the position is the one it started at
      have there : page₁.stream.kind ≠ .eof := by rwa [Stream.kind, way.here_eq stays]
      have one := Stream.position_advance (way.ends ends) there
      have rest := (page₁.stream.advance.forward_toBoundary boundary).forth
      show page.stream.position < (page₁.stream.advance.toBoundary boundary).position
      omega
    · next moved =>
      have rest := (page₁.stream.forward_toBoundary boundary).forth
      have forth := way.forth
      show page.stream.position < (page₁.stream.toBoundary boundary).position
      omega

end Stmt

end Scriptlet
