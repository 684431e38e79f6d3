import Scriptlet.Proofs.Reader.Bounds

/-!
# Programs in parts

Tokens followed by more tokens are read as both are read alone, if the first end where a declaration
can end or where one was given up, and none of their problems stands at the end
(`Program.ofTokens_followed`). The end of the first part is an end token in one reading and the
first token of the second part in the other. A declaration that stops before it never saw the
difference (`PageReading.Mirrors`). One that failed and was skipped to the end is skipped to the
second part, if that starts with a boundary (`PageReading.recover_followed`). And a last declaration
that was read ends with a semicolon or a brace, so it does not look further (`PageReading.Tracks`).
-/

namespace Scriptlet

open PageReading

/-! ## One declaration after the other -/

/-- The declarations up to the end of the tokens, with nothing for each that failed. -/
def readOutcomes (mode : Mode) : Nat → PageReading (List (Option Stmt))
  | 0 => (Reading.fail .lessNesting : Reading (List (Option Stmt)))
  | n + 1 => do
    if (← Reading.kind) = .eof then return []
    else
      let first ← PageReading.recovering .outside (Stmt.read mode n)
      let rest ← readOutcomes mode n
      return first :: rest

/-- What became of the declarations in a list of tokens. -/
def Program.outcomes (mode : Mode) (tokens : List Token) : List (Option Stmt) :=
  let s := Stream.ofTokens tokens
  match readOutcomes mode s.nestingBound ⟨s, []⟩ with
  | .ok outcomes _ => outcomes
  | .error _ _ => []

/-- Reading a program is reading its declarations and leaving out those that failed. -/
theorem readProgram_eq (mode : Mode) (n : Nat) :
    readProgram mode n = List.flatMap Option.toList <$> readOutcomes mode n := by
  induction n with
  | zero => rfl
  | succ n ih =>
    rw [readProgram, readOutcomes, map_bind]
    refine congrArg _ (funext fun kind => ?_)
    split
    · rfl
    · simp only [ih, map_bind, bind_map_left, map_pure, List.flatMap_cons]

/-- The ways in which declarations are read to the end: none is left, or one is read and then the
others. -/
theorem readOutcomes_ok {mode : Mode} {n : Nat} {page page' : Page} {outcomes : List (Option Stmt)}
    (read : readOutcomes mode (n + 1) page = .ok outcomes page') :
    (page.stream.kind = .eof ∧ outcomes = [] ∧ page' = page) ∨
    (page.stream.kind ≠ .eof ∧ ∃ first page₁ rest, outcomes = first :: rest ∧
      PageReading.recovering .outside (Stmt.read mode n) page = .ok first page₁ ∧
      readOutcomes mode n page₁ = .ok rest page') := by
  rw [readOutcomes, lift_kind_bind] at read
  by_cases eof : page.stream.kind = .eof
  · rw [if_pos eof] at read
    cases read
    exact .inl ⟨eof, rfl, rfl⟩
  · rw [if_neg eof] at read
    obtain ⟨first, page₁, readFirst, read⟩ := bind_eq_ok read
    obtain ⟨rest, page₂, readRest, read⟩ := bind_eq_ok read
    cases read
    exact .inr ⟨eof, first, page₁, rest, rfl, readFirst, readRest⟩

theorem readOutcomes_at_end {mode : Mode} {n : Nat} {page page' : Page}
    {outcomes : List (Option Stmt)} (eof : page.stream.kind = .eof)
    (read : readOutcomes mode n page = .ok outcomes page') : outcomes = [] := by
  cases n with
  | zero => cases read
  | succ n =>
    obtain ⟨-, none, -⟩ | ⟨inside, -⟩ := readOutcomes_ok read
    · exact none
    · exact absurd eof inside

theorem length_readOutcomes {mode : Mode} {n : Nat} {page page' : Page}
    {outcomes : List (Option Stmt)} (read : readOutcomes mode n page = .ok outcomes page') :
    outcomes.length ≤ n := by
  induction n generalizing page outcomes with
  | zero => cases read
  | succ n ih =>
    obtain ⟨-, rfl, -⟩ | ⟨-, first, page₁, rest, rfl, -, readRest⟩ := readOutcomes_ok read
    · exact Nat.zero_le _
    · exact Nat.succ_le_succ (ih readRest)

/-- Reading tokens gives their program, with every bound that is large enough. -/
theorem Program.ofTokens_ends (mode : Mode) (tokens : List Token) :
    Shallow (Program.ofTokens mode tokens).errors ∧ ∃ s' : Stream,
      ∀ n, (Stream.ofTokens tokens).nestingBound ≤ n →
        readProgram mode n ⟨Stream.ofTokens tokens, []⟩ =
          .ok (Program.ofTokens mode tokens).statements
            ⟨s', (Program.ofTokens mode tokens).errors⟩ := by
  obtain ⟨statements, ⟨s', errors⟩, -, shallow, read⟩ :=
    readProgram_ends mode (Stream.ends_ofTokens tokens)
  have same : Program.ofTokens mode tokens = ⟨statements, errors⟩ := by
    rw [Program.ofTokens, Program.ofStream, read _ (Nat.le_refl _)]
  rw [same]
  exact ⟨shallow, s', read⟩

/-- The statements of a program are the declarations that did not fail. -/
theorem Program.ofTokens_outcomes (mode : Mode) (tokens : List Token) :
    (Program.ofTokens mode tokens).statements =
        (Program.outcomes mode tokens).flatMap Option.toList ∧
      ∃ s' : Stream, readOutcomes mode (Stream.ofTokens tokens).nestingBound
          ⟨Stream.ofTokens tokens, []⟩ =
        .ok (Program.outcomes mode tokens) ⟨s', (Program.ofTokens mode tokens).errors⟩ := by
  obtain ⟨-, s', read⟩ := Program.ofTokens_ends mode tokens
  have read := read _ (Nat.le_refl _)
  rw [readProgram_eq, map_eq_pure_bind] at read
  obtain ⟨outcomes, page, found, made⟩ := bind_eq_ok read
  have same : Program.outcomes mode tokens = outcomes := by
    simp only [Program.outcomes, found]
  injection made with statements pages
  rw [same, ← statements, found, pages]
  exact ⟨rfl, s', rfl⟩

/-! ## Where more tokens follow -/

section

variable {last : TokenKind → Bool} {next : Token} {more : List Token} {s s₁ t : Stream}
  {errors errors₁ : List ReadError} {n N : Nat}

/-- A declaration is read on both streams alike, unless it was read to the end of the first one and
does not end there for sure. -/
theorem recovering_followed (other : next.kind ≠ .kwElse) (le : n ≤ N)
    (followed : Followed last next more s t) (here : s.kind ≠ .eof) {outcome : Option Stmt}
    (read : PageReading.recovering .outside (Stmt.read .file n) ⟨s, errors⟩ =
      .ok outcome ⟨s₁, errors₁⟩) (isolated : Isolated next errors₁)
    (stops : outcome = none ∨ s₁.kind ≠ .eof ∨ last = TokenKind.mayEnd) :
    ∃ t₁, PageReading.recovering .outside (Stmt.read .file N) ⟨t, errors⟩ =
      .ok outcome ⟨t₁, errors₁⟩ ∧ Followed last next more s₁ t₁ := by
  have mirrors (before before' : List Token) (ending : Token) :=
    Stmt.mirrors_read le before before' [ending] (next :: more)
  rcases stops with rfl | goesOn | rfl
  · -- the declaration failed
    cases first : Stmt.read .file n ⟨s, errors⟩ with
    | ok st page =>
      rw [recovering_of_ok first] at read
      cases read
    | error e page =>
      have record : errors₁ = page.errors ++ [e] := by
        rw [recovering_of_error first] at read
        injection read with _ pages
        exact (congrArg Page.errors pages).symm
      obtain ⟨s₂, t₁, recovered, recovered', together⟩ :=
        recover_followed mirrors
          (fun kind bounds => show Boundary.outside.contains kind = true from bounds) followed first
          (record ▸ isolated)
      rw [recovered] at read
      cases read
      exact ⟨t₁, recovered', together⟩
  · exact read_followed (fun before before' ending => (mirrors before before' ending).recovering _)
      followed read (fun e mem => (isolated e mem).2.1) goesOn
  · obtain ⟨-, t₁, read', joint⟩ := ((Stmt.tracked more other le).read.recovering mirrors
      fun _ bounds => bounds).moves s t followed here errors outcome s₁ errors₁ read isolated
    exact ⟨t₁, read', joint⟩

/-- On the longer stream the declarations of the shorter one are read first and then what follows
them. -/
theorem readProgram_followed (other : next.kind ≠ .kwElse) (le : n ≤ N)
    (followed : Followed last next more s t) {outcomes : List (Option Stmt)}
    (read : readOutcomes .file n ⟨s, errors⟩ = .ok outcomes ⟨s₁, errors₁⟩)
    (isolated : Isolated next errors₁)
    (stops : (∀ outcome ∈ outcomes.getLast?, outcome = none) ∨ last = TokenKind.mayEnd) :
    ∃ t₁ : Stream, t₁.here = next ∧ t₁.ahead = more ∧
      readProgram .file N ⟨t, errors⟩ =
        ((outcomes.flatMap Option.toList ++ ·) <$> readProgram .file (N - outcomes.length))
          ⟨t₁, errors₁⟩ := by
  induction n generalizing N s t errors outcomes with
  | zero => cases read
  | succ n ih =>
    obtain ⟨N, rfl⟩ := Nat.exists_eq_add_one_of_ne_zero (Nat.ne_zero_of_lt le)
    have le := Nat.le_of_succ_le_succ le
    obtain ⟨eof, rfl, same⟩ | ⟨inside, first, ⟨s₂, errors₂⟩, rest, rfl, readFirst, readRest⟩ :=
      readOutcomes_ok read
    · cases same
      obtain ⟨here, ahead⟩ := followed.at_end eof
      exact ⟨t, here, ahead, by simp⟩
    · have isolated₂ : Isolated next errors₂ := by
        have whole := map_of_ok (f := List.flatMap Option.toList) readRest
        rw [← readProgram_eq] at whole
        have walks := forward.readProgram (Reading.forward.terminator .file) (Nat.le_refl n)
        exact isolated.of_prefix (walks.ok _ _ _ whole).errors
      -- the last declaration failed, or it is not this one
      obtain ⟨stops₁, stops₂⟩ : (first = none ∨ s₂.kind ≠ .eof ∨ last = TokenKind.mayEnd) ∧
          ((∀ outcome ∈ rest.getLast?, outcome = none) ∨ last = TokenKind.mayEnd) := by
        rcases stops with failed | closed
        · cases rest with
          | nil => exact ⟨.inl (failed first rfl), .inl nofun⟩
          | cons outcome others =>
            refine ⟨.inr (.inl fun eof => ?_), .inl (by rwa [List.getLast?_cons_cons] at failed)⟩
            cases readOutcomes_at_end eof readRest
        · exact ⟨.inr (.inr closed), .inr closed⟩
      obtain ⟨t₂, readFirst', followed₂⟩ :=
        recovering_followed other le followed inside readFirst isolated₂ stops₁
      obtain ⟨t₁, here, ahead, readRest'⟩ := ih le followed₂ readRest stops₂
      refine ⟨t₁, here, ahead, ?_⟩
      rw [readProgram, lift_kind_bind, followed.kind_eq inside, if_neg inside,
        bind_of_ok readFirst']
      have joined : (readProgram .file N >>= fun rest => pure (first.toList ++ rest))
            ⟨t₂, errors₂⟩ =
          (((rest.flatMap Option.toList ++ ·) <$> readProgram .file (N - rest.length)) >>=
            fun rest => pure (first.toList ++ rest)) ⟨t₁, errors₁⟩ := by
        show EStateM.bind _ _ _ = EStateM.bind _ _ _
        rw [EStateM.bind, EStateM.bind, readRest']
      simpa using joined

end

/-- What is read of the longer stream is what is read of the shorter one and then of what follows
it. -/
theorem Program.ofTokens_followed {last : TokenKind → Bool} {p q whole : List Token}
    (followed : Followed last (Stream.ofTokens q).here (Stream.ofTokens q).ahead
      (.ofTokens p) (.ofTokens whole)) (other : (Stream.ofTokens q).kind ≠ .kwElse)
    (apart : ∀ e ∈ (Program.ofTokens .file p).errors,
      e.found ≠ .eof ∧ KindSet.outside.contains (Stream.ofTokens q).kind = true)
    (stops : (∀ outcome ∈ (Program.outcomes .file p).getLast?, outcome = none) ∨
      last = TokenKind.mayEnd) :
    Program.ofTokens .file whole =
      ⟨(Program.ofTokens .file p).statements ++ (Program.ofTokens .file q).statements,
        (Program.ofTokens .file p).errors ++ (Program.ofTokens .file q).errors⟩ := by
  obtain ⟨shallow, -⟩ := Program.ofTokens_ends .file p
  obtain ⟨made, s₁, read⟩ := Program.ofTokens_outcomes .file p
  obtain ⟨shallow', u₁, readNext⟩ := Program.ofTokens_ends .file q
  obtain ⟨-, t₁, readBoth⟩ := Program.ofTokens_ends .file whole
  have start := passed_ofTokens q
  have ends := Stream.ends_ofTokens q
  generalize Stream.ofTokens q = u at *
  -- a bound that is enough for both parts and for the whole
  let bound := (Stream.ofTokens p).nestingBound + u.nestingBound +
    (Stream.ofTokens whole).nestingBound
  obtain ⟨t₂, here, ahead, joined⟩ := readProgram_followed (N := bound) other (by omega) followed
    read (fun e mem => ⟨(apart e mem).1, shallow e mem, (apart e mem).2⟩) stops
  have few := length_readOutcomes read
  have mirrors := (mirroring [] t₂.passed [] []).readProgram
    ((Reading.mirroring [] t₂.passed [] []).terminator .file)
    (show u.nestingBound ≤ bound - (Program.outcomes .file p).length by omega)
  have alone : u.within [] [] = u := by simp [Stream.within]
  have behind : u.within t₂.passed [] = t₂ := by simp [Stream.within, start, ← here, ← ahead]
  obtain ⟨w, new, same, longer⟩ := mirrors.ok u [] _ _ (by rwa [alone])
    (by rw [alone]; exact readNext _ (Nat.le_refl _)) shallow' (Nat.zero_le _)
  have longer := longer (Program.ofTokens .file p).errors
  rw [behind] at longer
  rw [readBoth bound (by omega), map_of_ok longer, ← made] at joined
  injection same with _ added
  injection joined with statements pages
  injection pages with _ errors
  rw [← List.nil_append new, ← added] at errors
  exact congrArg₂ Program.mk statements errors

/-! ## Tokens -/

/-- Tokens without comments or end tokens, the last of which ends a statement. -/
structure Closed (tokens : List Token) : Prop where
  visible : ∀ t ∈ tokens, t.kind.isTrivia = false
  inside : ∀ t ∈ tokens, t.kind ≠ .eof
  ends : ∀ t ∈ tokens.getLast?, t.kind.mayEnd = true

namespace Closed

variable {tokens : List Token} {ending : Token}

theorem withEnd_eq (h : Closed tokens) (eof : ending.kind = .eof) :
    Stream.withEnd ((tokens ++ [ending]).filter (!·.kind.isTrivia)) = tokens ++ [ending] := by
  have visible : (tokens ++ [ending]).filter (!·.kind.isTrivia) = tokens ++ [ending] := by
    refine List.filter_eq_self.2 fun t mem => ?_
    rcases List.mem_append.1 mem with mem | mem
    · simp [h.visible t mem]
    · rw [List.mem_singleton.1 mem, eof]
      rfl
  rw [visible, Stream.withEnd, List.getLast?_concat]
  exact if_pos eof

theorem append {tokens' : List Token} (h : Closed tokens) (h' : Closed tokens') :
    Closed (tokens ++ tokens') where
  visible := List.forall_mem_append.2 ⟨h.visible, h'.visible⟩
  inside := List.forall_mem_append.2 ⟨h.inside, h'.inside⟩
  ends t mem := by
    rw [List.getLast?_append, Option.mem_def, Option.or_eq_some_iff] at mem
    rcases mem with mem | ⟨-, mem⟩
    · exact h'.ends t mem
    · exact h.ends t mem

end Closed

/-- **Reading goes on behind closed tokens.** If two lists of tokens are read without problems, the
first is closed and the second does not start with an `else`, then both together are read without
problems, as the statements of the first and then those of the second. -/
theorem Program.ofTokens_append {tokens₁ tokens₂ : List Token} {ending₁ ending₂ : Token}
    (closed₁ : Closed tokens₁) (closed₂ : Closed tokens₂) (eof₁ : ending₁.kind = .eof)
    (eof₂ : ending₂.kind = .eof) (other : ∀ t ∈ tokens₂.head?, t.kind ≠ .kwElse)
    (clean₁ : (Program.ofTokens .file (tokens₁ ++ [ending₁])).errors = [])
    (clean₂ : (Program.ofTokens .file (tokens₂ ++ [ending₂])).errors = []) :
    Program.ofTokens .file (tokens₁ ++ (tokens₂ ++ [ending₂])) =
      ⟨(Program.ofTokens .file (tokens₁ ++ [ending₁])).statements ++
        (Program.ofTokens .file (tokens₂ ++ [ending₂])).statements, []⟩ := by
  have front := (here_cons_ahead_ofTokens _).trans (closed₁.withEnd_eq eof₁)
  have behind := (here_cons_ahead_ofTokens _).trans (closed₂.withEnd_eq eof₂)
  have whole := (here_cons_ahead_ofTokens _).trans ((closed₁.append closed₂).withEnd_eq eof₂)
  rw [List.append_assoc] at whole
  have next : (Stream.ofTokens (tokens₂ ++ [ending₂])).kind ≠ .kwElse := by
    cases tokens₂ with
    | nil => exact (congrArg Token.kind (List.cons.inj behind).1).trans_ne (by simp [eof₂])
    | cons t rest => exact (congrArg Token.kind (List.cons.inj behind).1).trans_ne (other t rfl)
  have followed : Joint _ _ _ _ :=
    ⟨tokens₁, ending₁, front, whole.trans (congrArg (tokens₁ ++ ·) behind.symm), eof₁,
      closed₁.inside, closed₁.ends⟩
  rw [Program.ofTokens_followed followed next (by simp [clean₁]) (.inr rfl), clean₁, clean₂,
    List.append_nil]

/-- **Problems stay apart.** Let `p` and `q` be tokens without end tokens, and let `q` start with a
keyword at which reading resumes. If no problem of `p` stands at its end, and the last declaration
of `p` failed or `p` ends with a semicolon or a closing brace, then `p` and then `q` are read as the
statements of `p` and then those of `q`, with the problems of `p` and then those of `q`: whatever is
wrong in one part hides nothing and changes nothing in the other. -/
theorem problems_stay_apart {p q : List Token} (inside : ∀ t ∈ p ++ q, t.kind ≠ .eof)
    (starts : ∃ t ∈ (q.filter (!·.kind.isTrivia)).head?,
      t.kind ∈ [.kwIf, .kwWhile, .kwFunction, .kwClass, .kwVar, .kwConst])
    (found : ∀ e ∈ (Program.ofTokens .file p).errors, e.found ≠ .eof)
    (stops : (Program.outcomes .file p).getLast? = some none ∨
      ∀ t ∈ (p.filter (!·.kind.isTrivia)).getLast?, t.kind = .semicolon ∨ t.kind = .rightBrace) :
    Program.ofTokens .file (p ++ q) =
      ⟨(Program.ofTokens .file p).statements ++ (Program.ofTokens .file q).statements,
        (Program.ofTokens .file p).errors ++ (Program.ofTokens .file q).errors⟩ := by
  obtain ⟨t, first, keyword⟩ := starts
  have open₁ : ∀ t ∈ p.filter (!·.kind.isTrivia), t.kind ≠ .eof := fun t mem =>
    inside t (List.mem_append_left _ (List.mem_of_mem_filter mem))
  have open₂ : ∀ t ∈ q.filter (!·.kind.isTrivia), t.kind ≠ .eof := fun t mem =>
    inside t (List.mem_append_right _ (List.mem_of_mem_filter mem))
  have front := (here_cons_ahead_ofTokens p).trans (Stream.withEnd_of_open open₁)
  have behind := (here_cons_ahead_ofTokens q).trans (Stream.withEnd_of_open open₂)
  have whole := (here_cons_ahead_ofTokens (p ++ q)).trans (Stream.withEnd_of_open
    fun t mem => inside t (List.mem_of_mem_filter mem))
  obtain ⟨rest, split⟩ := List.head?_eq_some_iff.1 first
  -- both end where the tokens of `q` end
  rw [List.filter_append, List.getLast?_append_of_ne_nil _ (by rw [split]; exact nofun),
    List.append_assoc, ← behind] at whole
  have next : (Stream.ofTokens q).kind = t.kind := by
    rw [split] at behind
    exact congrArg Token.kind (List.cons.inj behind).1
  have bounds : KindSet.outside.contains (Stream.ofTokens q).kind = true := by
    rw [next]
    revert keyword
    generalize t.kind = kind
    revert kind
    decide
  have other : (Stream.ofTokens q).kind ≠ .kwElse := by
    rintro same
    rw [same] at bounds
    cases bounds
  rcases stops with failed | ended
  · have followed : Followed (fun _ => true) _ _ _ _ :=
      ⟨_, _, front, whole, Stream.kind_missingEnd _, open₁, fun _ _ => rfl⟩
    exact Program.ofTokens_followed followed other (fun e mem => ⟨found e mem, bounds⟩)
      (.inl (by simp [failed]))
  · have followed : Joint _ _ _ _ :=
      ⟨_, _, front, whole, Stream.kind_missingEnd _, open₁, fun x mem => by
        rcases ended x mem with kind | kind <;> rw [kind] <;> rfl⟩
    exact Program.ofTokens_followed followed other (fun e mem => ⟨found e mem, bounds⟩)
      (.inr rfl)

/-- `{ var ; const x = y ; } x y`: a name is missing in the block, and the last declaration does not
end where it could. -/
def spoiledTokens : List Token :=
  [.fixed .leftBrace, .fixed .kwVar, .fixed .semicolon, .fixed .kwConst, .name "x", .fixed .equal,
    .name "y", .fixed .semicolon, .fixed .rightBrace, .name "x", .name "y"].map Symbol.token

/-- `if ( x ) y ; function`: the last declaration is cut off. -/
def cutTokens : List Token :=
  [.fixed .kwIf, .fixed .leftParen, .name "x", .fixed .rightParen, .name "y", .fixed .semicolon,
    .fixed .kwFunction].map Symbol.token

/-- Together they have the three problems, and the block and the branch are read. -/
theorem spoiled_and_cut_stay_apart :
    ((Program.ofTokens .file spoiledTokens).errors.map (·.expected) =
        [.variableName, .expressionEnd] ∧
      (Program.ofTokens .file cutTokens).errors.map (·.expected) = [.functionName]) ∧
    (Program.ofTokens .file (spoiledTokens ++ cutTokens)).errors.map (·.expected) =
        [.variableName, .expressionEnd, .functionName] ∧
      (Program.ofTokens .file (spoiledTokens ++ cutTokens)).statements.length = 2 := by
  have failed : (Program.outcomes .file spoiledTokens).getLast?.map Option.isNone =
      some true := by decide +kernel
  obtain ⟨outcome, last, none⟩ := Option.map_eq_some_iff.1 failed
  rw [Option.isNone_iff_eq_none.1 none] at last
  have parts := problems_stay_apart (p := spoiledTokens) (q := cutTokens) (by decide)
    ⟨Symbol.token (.fixed .kwIf), rfl, by decide⟩ (by decide +kernel) (.inl last)
  rw [parts]
  decide +kernel

end Scriptlet
