import Scriptlet.Proofs.Reader.Spans
import Scriptlet.Proofs.Reader.Walk

/-!
# Where problems point

Whatever the reader does, it keeps the tokens of its stream, and every problem it records stands at
one of them (`onTokens_ofTokens`): this is a law of reading over given tokens (`Reading.blaming`,
`PageReading.blaming`). The value of a literal is only missed where a token lacks it.
Scanning reports tokens and single characters. So the problems of a text point into that text
(`place_of_problem`).
-/

namespace Scriptlet

/-- The problem stands at one of the tokens. -/
def ReadError.OnTokens (e : ReadError) (tokens : List Token) : Prop :=
  ∃ expected, ∃ t ∈ tokens, e = .atToken expected t

/-- A problem that the tokens account for: it stands at one of them, and if it is that a literal has
no value, there is such a literal. -/
structure ReadError.Founded (e : ReadError) (tokens : List Token) : Prop where
  onTokens : e.OnTokens tokens
  valueless : e.expected = .literalValue → ∃ t ∈ tokens, t.Valueless

variable {tokens : List Token}

/-! ## Readings -/

theorem Stream.here_mem (s : Stream) : s.here ∈ s.tokens :=
  List.mem_append_right _ List.mem_cons_self

namespace Reading

variable {α β : Type} {r : Reading α}

/-- A reading that keeps the tokens and, if it fails, does so for a reason in them. -/
structure Blames (tokens : List Token) (r : Reading α) : Prop where
  ok : ∀ s a s', s.tokens = tokens → r s = .ok a s' → s'.tokens = tokens
  error : ∀ s e s', s.tokens = tokens → r s = .error e s' → s'.tokens = tokens ∧ e.Founded tokens

theorem Blames.bind {k : α → Reading β} (hr : r.Blames tokens) (hk : ∀ a, (k a).Blames tokens) :
    (r >>= k).Blames tokens where
  ok s b s' kept read := by
    obtain ⟨a, s₁, first, second⟩ := bind_eq_ok read
    exact (hk a).ok s₁ b s' (hr.ok s a s₁ kept first) second
  error s e s' kept failed := by
    rcases bind_eq_error failed with failed | ⟨a, s₁, first, failed⟩
    · exact hr.error s e s' kept failed
    · exact (hk a).error s₁ e s' (hr.ok s a s₁ kept first) failed

theorem blames_fail {expected : Expectation}
    (founded : expected = .literalValue → ∃ t ∈ tokens, t.Valueless) :
    (fail expected : Reading α).Blames tokens where
  ok s a s' kept read := by cases read
  error s e s' kept failed := by
    cases failed
    exact ⟨kept, ⟨expected, s.here, kept ▸ s.here_mem, rfl⟩, founded⟩

/-- Blaming tokens is a law, because readings that fail do so at the token under the position. -/
def blaming (tokens : List Token) : Reading.Law where
  Holds r _ := r.Blames tokens
  Meets t := t ∈ tokens
  value a :=
    { ok := fun s b s' kept read => by
        cases read
        exact kept
      error := fun s e s' kept failed => by cases failed }
  failure expected founded := blames_fail founded
  tooDeep _ := blames_fail fun missing => absurd missing (by decide)
  here hk :=
    { ok := fun s a s' kept read => (hk s.here (kept ▸ s.here_mem)).ok s a s' kept read
      error := fun s e s' kept failed =>
        (hk s.here (kept ▸ s.here_mem)).error s e s' kept failed }
  next :=
    { ok := fun s t s' kept read => by
        cases read
        exact s.tokens_advance.trans kept
      error := fun s e s' kept failed => by cases failed }
  sequence hr hk := hr.bind hk

end Reading

/-! ## Pages -/

/-- A page over some tokens, which account for all its problems. -/
structure Page.Over (tokens : List Token) (page : Page) : Prop where
  stream : page.stream.tokens = tokens
  errors : ∀ e ∈ page.errors, e.Founded tokens

namespace PageReading

variable {α β : Type}

/-- A reading that keeps a page over its tokens and, if it fails, does so for a reason in them. -/
structure Blames (tokens : List Token) (r : PageReading α) : Prop where
  ok : ∀ page a page', page.Over tokens → r page = .ok a page' → page'.Over tokens
  error : ∀ page e page', page.Over tokens → r page = .error e page' →
    page'.Over tokens ∧ e.Founded tokens

variable {r : PageReading α}

theorem Blames.bind {k : α → PageReading β} (hr : r.Blames tokens)
    (hk : ∀ a, (k a).Blames tokens) : (r >>= k).Blames tokens where
  ok page b page' held read := by
    obtain ⟨a, page₁, first, second⟩ := bind_eq_ok read
    exact (hk a).ok page₁ b page' (hr.ok page a page₁ held first) second
  error page e page' held failed := by
    rcases bind_eq_error failed with failed | ⟨a, page₁, first, failed⟩
    · exact hr.error page e page' held failed
    · exact (hk a).error page₁ e page' (hr.ok page a page₁ held first) failed

theorem blames_lift {r : Reading α} (h : r.Blames tokens) :
    (liftM r : PageReading α).Blames tokens where
  ok page a page' held read := by
    obtain ⟨s, first, rfl⟩ := lift_eq_ok read
    exact ⟨h.ok _ _ _ held.stream first, held.errors⟩
  error page e page' held failed := by
    obtain ⟨s, first, rfl⟩ := lift_eq_error failed
    obtain ⟨kept, founded⟩ := h.error _ _ _ held.stream first
    exact ⟨⟨kept, held.errors⟩, founded⟩

/-- The problem of a failed declaration is recorded as it is. -/
theorem Blames.recovering (h : r.Blames tokens) (boundary : Boundary) :
    (PageReading.recovering boundary r).Blames tokens where
  ok page o page' held read := by
    obtain ⟨a, -, read⟩ | ⟨e, page₁, -, failed, rfl⟩ := recovering_eq_ok read
    · exact h.ok page a page' held read
    · obtain ⟨kept, founded⟩ := h.error page e page₁ held failed
      have way : page₁.Forward (page₁.recover page.stream boundary e) :=
        Page.forward_recover boundary e
      refine ⟨way.stream.tokens.trans kept.stream, List.forall_mem_append.2 ⟨kept.errors, ?_⟩⟩
      exact List.forall_mem_singleton.2 founded
  error page e page' held failed := absurd failed recovering_ne_error

/-- Blaming tokens is a law of declarations too. -/
def blaming (tokens : List Token) : PageReading.Law (Reading.blaming tokens) where
  Holds r _ := r.Blames tokens
  lift h := blames_lift h
  tooDeep _ := blames_lift (Reading.blames_fail fun missing => absurd missing (by decide))
  sequence hr hk := hr.bind hk
  recovering boundary h := h.recovering boundary

end PageReading

theorem blames_readProgram (tokens : List Token) (mode : Mode) (n : Nat) :
    (readProgram mode n).Blames tokens :=
  (PageReading.blaming tokens).readProgram ((Reading.blaming tokens).terminator mode)
    (Nat.le_refl n)

/-- **The tokens account for every problem with their program.** -/
theorem founded_ofTokens {mode : Mode} {e : ReadError}
    (mem : e ∈ (Program.ofTokens mode tokens).errors) :
    e.Founded (Stream.ofTokens tokens).tokens := by
  let s := Stream.ofTokens tokens
  have blank : Page.Over s.tokens ⟨s, []⟩ := ⟨rfl, List.forall_mem_nil _⟩
  have blames := blames_readProgram s.tokens mode s.nestingBound
  change e ∈ (Program.ofStream mode s).errors at mem
  unfold Program.ofStream at mem
  cases read : readProgram mode s.nestingBound ⟨s, []⟩ with
  | ok statements page =>
    rw [read] at mem
    exact (blames.ok _ _ _ blank read).errors e mem
  | error e' page =>
    rw [read] at mem
    obtain ⟨kept, founded⟩ := blames.error _ _ _ blank read
    rcases List.mem_append.1 mem with old | new
    · exact kept.errors e old
    · rw [List.mem_singleton.1 new]
      exact founded

/-- **Every problem with a program stands at one of its tokens.** -/
theorem onTokens_ofTokens {mode : Mode} {e : ReadError}
    (mem : e ∈ (Program.ofTokens mode tokens).errors) :
    e.OnTokens (Stream.ofTokens tokens).tokens :=
  (founded_ofTokens mem).onTokens

/-! ## Texts -/

theorem between_of_mem_surplusPoints {offset pos : Nat} {seen : Bool} {cs : List Char}
    (mem : offset ∈ surplusPoints pos seen cs) : pos ≤ offset ∧ offset < pos + cs.length := by
  induction cs generalizing pos seen with
  | nil => cases mem
  | cons c rest ih =>
    have later : ∀ {seen}, offset ∈ surplusPoints (pos + 1) seen rest →
        pos ≤ offset ∧ offset < pos + (c :: rest).length := by
      intro seen mem
      obtain ⟨left, right⟩ := ih mem
      rw [List.length_cons]
      omega
    unfold surplusPoints at mem
    split at mem
    · split at mem
      · rcases List.mem_cons.1 mem with rfl | mem
        · simp
        · exact later mem
      · exact later mem
    · exact later mem

/-- Scanning reports tokens and single characters. -/
theorem span_of_mem_problems {cs : List Char} {pos line : Nat} {e : ScanError}
    (mem : e ∈ Scanned.problems (scanFrom cs pos line)) :
    (∃ t ∈ Scanned.tokens (scanFrom cs pos line), e.span = t.span) ∨
      ∃ i, i < pos + cs.length ∧ e.span = ⟨i, i + 1⟩ := by
  fun_induction scanFrom cs pos line with
  | case1 => cases mem
  | case2 pos line c rest gap ih =>
    rcases ih mem with token | ⟨i, inside, span⟩
    · exact .inl token
    · exact .inr ⟨i, by rw [List.length_cons]; omega, span⟩
  | case3 pos line c rest gap none ih =>
    rw [Scanned.problems_record] at mem
    rw [Scanned.tokens_record]
    rcases List.mem_cons.1 mem with rfl | mem
    · exact .inr ⟨pos, by rw [List.length_cons]; omega, rfl⟩
    · rcases ih mem with token | ⟨i, inside, span⟩
      · exact .inl token
      · exact .inr ⟨i, by rw [List.length_cons]; omega, span⟩
  | case4 pos line c rest gap kind more found lexeme token ih =>
    have bound := extent_le found
    have length : lexeme.length = more + 1 := by
      rw [List.length_cons, List.length_take_of_le bound]
    rcases List.mem_append.1 mem with mem | mem
    · -- the problem is one with the token, or with a point in it
      have own : (token : Token) ∈ Scanned.tokens
          (⟨problemsOf kind lexeme pos line, token⟩ ::
            scanFrom (rest.drop more) (pos + lexeme.length) (line + lexeme.count '\n')) :=
        List.mem_cons_self
      change e ∈ problemsOf kind lexeme pos line at mem
      unfold problemsOf at mem
      cases kind <;> try cases mem
      case textLiteral =>
        dsimp only at mem
        split at mem
        · cases mem
        · rw [List.mem_singleton.1 mem]
          exact .inl ⟨token, own, rfl⟩
      case numberLiteral =>
        dsimp only at mem
        rcases List.mem_append.1 mem with mem | mem
        · obtain ⟨i, point, rfl⟩ := List.mem_map.1 mem
          obtain ⟨-, inside⟩ := between_of_mem_surplusPoints point
          exact .inr ⟨i, by rw [List.length_cons]; omega, rfl⟩
        · split at mem
          · cases mem
          · rw [List.mem_singleton.1 mem]
            exact .inl ⟨token, own, rfl⟩
    · rcases ih mem with ⟨t, there, span⟩ | ⟨i, inside, span⟩
      · exact .inl ⟨t, List.mem_cons_of_mem _ there, span⟩
      · refine .inr ⟨i, ?_, span⟩
        rw [length, List.length_drop] at inside
        rw [List.length_cons]
        omega

/-- A place in a text: a token, a single character, or a place of its program if it was read without
problems. -/
inductive Span.IsPlace (mode : Mode) (text : String) (span : Span) : Prop
  | token (t : Token) : t ∈ Scanned.tokens (scan text) → span = t.span → IsPlace mode text span
  | character (i : Nat) : i < text.length → span = ⟨i, i + 1⟩ → IsPlace mode text span
  | program : (Source.ofText mode text).diagnostics = [] →
      span ∈ programPlaces (Source.ofText mode text).statements → IsPlace mode text span

theorem Span.IsPlace.fits {mode : Mode} {text : String} {span : Span}
    (h : span.IsPlace mode text) : span.Fits text.length := by
  cases h with
  | token t mem same =>
    rw [same]
    exact fits_of_mem_scan mem
  | character i inside same =>
    rw [same]
    exact ⟨Nat.le_succ i, inside⟩
  | program clean mem => exact fits_of_clean clean span mem

/-- The problems of a text point into it. -/
theorem place_of_problem {mode : Mode} {text : String} {d : Diagnostic} {span : Span}
    (mem : d ∈ (Source.ofText mode text).diagnostics) (at_ : d.span = some span) :
    span.IsPlace mode text := by
  rcases List.mem_append.1 mem with scanned | read
  · obtain ⟨e, recorded, rfl⟩ := List.mem_map.1 scanned
    cases at_
    rcases span_of_mem_problems recorded with ⟨t, there, same⟩ | ⟨i, inside, same⟩
    · exact .token t there same
    · rw [Nat.zero_add, String.length_toList] at inside
      exact .character i inside same
  · obtain ⟨e, recorded, rfl⟩ := List.mem_map.1 read
    cases at_
    obtain ⟨expected, t, there, rfl⟩ := onTokens_ofTokens recorded
    exact .token t (mem_scan_of_mem_stream there) rfl

end Scriptlet
