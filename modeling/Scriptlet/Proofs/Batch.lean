import Scriptlet.Proofs.Layout
import Scriptlet.Proofs.Reader.Isolation
import Scriptlet.Proofs.Token.Join

/-!
# Line by line or all at once

A session that runs lines in turn sees the same as a fresh session that runs them as one text
(`lines_equal_batch`), if each line ends with a semicolon or a brace and none starts with an `else`.
Scanning and reading go through the ends of such lines, and running statements in two parts is
running them. The places of the tokens differ between the two, so the machines agree up to places.
-/

namespace Scriptlet

/-! ## Lines -/

/-- The tokens of a text without its comments and its end token. -/
def codeTokens (text : String) : List Token := programTokens (Scanned.tokens (scan text))

/-- A line that neither goes on with the line before it nor needs another one to end. -/
structure Standalone (line : String) : Prop where
  ends : ∀ t ∈ (codeTokens line).getLast?, t.kind = .semicolon ∨ t.kind = .rightBrace
  starts : ∀ t ∈ (codeTokens line).head?, t.kind ≠ .kwElse

instance (line : String) : Decidable (Standalone line) :=
  decidable_of_iff
    ((∀ t ∈ (codeTokens line).getLast?, t.kind = .semicolon ∨ t.kind = .rightBrace) ∧
      ∀ t ∈ (codeTokens line).head?, t.kind ≠ .kwElse)
    ⟨fun h => ⟨h.1, h.2⟩, fun h => ⟨h.ends, h.starts⟩⟩

theorem programTokens_append {before : List Token} (inside : ∀ t ∈ before, t.kind ≠ .eof)
    (tokens : List Token) :
    programTokens (before ++ tokens) =
      before.filter (!·.kind.isTrivia) ++ programTokens tokens := by
  rw [programTokens, List.filter_append, List.takeWhile_append_of_pos]
  · rfl
  · intro t mem
    simpa using inside t (List.mem_of_mem_filter mem)

theorem programTokens_shift (tokens : List Token) (chars lines : Nat) :
    programTokens (tokens.map (Token.shift chars lines)) =
      (programTokens tokens).map (Token.shift chars lines) := by
  rw [programTokens, List.filter_map, List.takeWhile_map]
  rfl

/-- The tokens of a text, without its comments, are the code and an end token. -/
theorem tokens_scan (text : String) :
    ∃ body ending, Scanned.tokens (scan text) = body ++ [ending] ∧ ending.kind = .eof ∧
      (∀ t ∈ body, t.kind ≠ .eof) ∧ codeTokens text = body.filter (!·.kind.isTrivia) := by
  obtain ⟨body, line, tokens, inside⟩ := ends_scanFrom text.toList 0 1
  refine ⟨body, .ending line (0 + text.toList.length), tokens, rfl, inside, ?_⟩
  rw [codeTokens, scan, tokens, programTokens_append inside]
  exact List.append_nil _

theorem visibleTokens_eq (text : String) :
    ∃ ending, ending.kind = .eof ∧ visibleTokens text = codeTokens text ++ [ending] := by
  obtain ⟨body, ending, tokens, eof, -, code⟩ := tokens_scan text
  refine ⟨ending, eof, ?_⟩
  rw [visibleTokens, tokens, List.filter_append, code]
  simp [eof, TokenKind.isTrivia]

/-- The code of two lines is that of the first and then that of the second. -/
theorem codeTokens_join {text : String} (line : String)
    (clean : Scanned.problems (scan text) = []) :
    ∃ chars lines, codeTokens (text ++ "\n" ++ line) =
        codeTokens text ++ (codeTokens line).map (Token.shift chars lines) ∧
      visibleTokens (text ++ "\n" ++ line) =
        codeTokens text ++ (visibleTokens line).map (Token.shift chars lines) := by
  obtain ⟨chars, lines, tokens, -⟩ := scan_join text line clean
  obtain ⟨body, ending, own, -, inside, code⟩ := tokens_scan text
  rw [own, List.dropLast_concat] at tokens
  refine ⟨chars, lines, ?_, ?_⟩
  · rw [codeTokens, tokens, programTokens_append inside, programTokens_shift, code]
    rfl
  · rw [visibleTokens, tokens, List.filter_append, List.filter_map, code]
    rfl

namespace Standalone

variable {text line : String}

theorem closed (h : Standalone line) : Closed (codeTokens line) where
  visible t mem := by
    simpa using (List.mem_filter.1 (List.takeWhile_subset _ mem)).2
  inside t mem := by
    have := List.all_eq_true.1 (List.all_takeWhile ..) t mem
    simpa using this
  ends t mem := by rcases h.ends t mem with kind | kind <;> rw [kind] <;> rfl

theorem join (h : Standalone text) (h' : Standalone line)
    (clean : Scanned.problems (scan text) = []) : Standalone (text ++ "\n" ++ line) := by
  obtain ⟨chars, lines, code, -⟩ := codeTokens_join line clean
  constructor
  · intro t mem
    rw [code, List.getLast?_append, List.getLast?_map, Option.mem_def, Option.or_eq_some_iff] at mem
    rcases mem with mem | ⟨-, mem⟩
    · obtain ⟨u, last, rfl⟩ := Option.map_eq_some_iff.1 mem
      exact h'.ends u last
    · exact h.ends t mem
  · intro t mem
    rw [code, List.head?_append, List.head?_map, Option.mem_def, Option.or_eq_some_iff] at mem
    rcases mem with mem | ⟨-, mem⟩
    · exact h.starts t mem
    · obtain ⟨u, first, rfl⟩ := Option.map_eq_some_iff.1 mem
      exact h'.starts u first

end Standalone

/-! ## Reading -/

/-- The code of a standalone line is followed by that of another one. -/
theorem Program.ofTokens_lines {text line : String} (h : Standalone text) (h' : Standalone line)
    (clean : (Program.ofTokens .file (Scanned.tokens (scan text))).errors = [])
    (clean' : (Program.ofTokens .file (Scanned.tokens (scan line))).errors = []) :
    Program.ofTokens .file (codeTokens text ++ visibleTokens line) =
      ⟨(Source.ofText .file text).statements ++ (Source.ofText .file line).statements, []⟩ := by
  obtain ⟨ending, eof, visible⟩ := visibleTokens_eq text
  obtain ⟨ending', eof', visible'⟩ := visibleTokens_eq line
  have statements (text : String) : (Source.ofText .file text).statements =
      (Program.ofTokens .file (visibleTokens text)).statements :=
    congrArg (·.statements) (ofTokens_visible ..).symm
  rw [← ofTokens_visible] at clean clean'
  rw [statements, statements, visible, visible']
  exact ofTokens_append h.closed h'.closed eof eof' h'.starts (visible ▸ clean) (visible' ▸ clean')

/-- Two standalone lines without problems have no problems together, and the statements of both. -/
theorem Source.ofText_join {text line : String} (h : Standalone text) (h' : Standalone line)
    (clean : (Source.ofText .file text).diagnostics = [])
    (clean' : (Source.ofText .file line).diagnostics = []) :
    (Source.ofText .file (text ++ "\n" ++ line)).diagnostics = [] ∧
      (Source.ofText .file (text ++ "\n" ++ line)).statements.map Stmt.bare =
        ((Source.ofText .file text).statements ++
          (Source.ofText .file line).statements).map Stmt.bare := by
  obtain ⟨scanned, read⟩ := diagnostics_eq_nil.1 clean
  obtain ⟨scanned', read'⟩ := diagnostics_eq_nil.1 clean'
  obtain ⟨chars, lines, -, joined⟩ := codeTokens_join line scanned
  -- the tokens of the second line have other places in the joined text, but the same content
  have alike : (visibleTokens (text ++ "\n" ++ line)).map Token.content =
      (codeTokens text ++ visibleTokens line).map Token.content := by
    rw [joined, List.map_append, List.map_map, List.map_append]
    rfl
  have program : (Program.ofTokens .file (Scanned.tokens (scan (text ++ "\n" ++ line)))).bare =
      (Program.ofTokens .file (codeTokens text ++ visibleTokens line)).bare := by
    rw [← Program.ofTokens_visible, ← Program.ofTokens_bare, ← Program.ofTokens_bare]
    exact congrArg _ (map_bare_of_content alike)
  rw [Program.ofTokens_lines h h' read read'] at program
  refine ⟨diagnostics_eq_nil.2 ⟨?_, ?_⟩, congrArg (·.statements) program⟩
  · obtain ⟨_, _, -, problems⟩ := scan_join text line scanned
    rw [problems, scanned', List.map_nil]
  · exact List.map_eq_nil_iff.1 (congrArg (·.errors) program)

/-! ## Running -/

theorem Ending.eq_finished_of_bare {ending : Ending} (h : ending.bare = .finished) :
    ending = .finished := by
  cases ending <;> first | rfl | cases h

theorem interpret_append (host : Host) (fuel : Nat) (mode : Mode) (p q : List Stmt) :
    interpret host fuel mode (p ++ q) =
      (do interpret host fuel mode p; interpret host fuel mode q) := by
  induction p with
  | nil => simp [interpret]
  | cons st rest ih =>
    simp only [List.cons_append, interpret, ih]
    split
    · rw [bind_assoc]
      congr 1
      funext v
      split <;> simp
    · simp

namespace Session

/-- Run lines in turn, as long as they finish. -/
def runLines (s : Session) : List String → Option Session
  | [] => some s
  | line :: rest =>
    match s.run line with
    | (.finished, s) => s.runLines rest
    | _ => none

theorem runLines_cons {s s' : Session} {line : String} {rest : List String}
    (h : s.runLines (line :: rest) = some s') :
    (s.run line).1 = .finished ∧ (s.run line).2.runLines rest = some s' := by
  rw [runLines] at h
  split at h
  · next s₁ ran =>
    rw [ran]
    exact ⟨rfl, h⟩
  · cases h

/-- A text that finishes has no problems, and its statements run to their end. -/
theorem run_eq_finished {s : Session} {text : String} (h : (s.run text).1 = .finished) :
    (Source.ofText s.mode text).diagnostics = [] ∧ ∃ m,
      interpret s.host fuel s.mode (Source.ofText s.mode text).statements s.machine = .ok () m ∧
        (s.run text).2 = { s with machine := m } := by
  simp only [run] at h ⊢
  split at h
  · next clean =>
    refine ⟨List.isEmpty_iff.1 clean, ?_⟩
    rw [if_pos clean]
    cases ran : interpret s.host fuel s.mode (Source.ofText s.mode text).statements s.machine with
    | ok u m => exact ⟨m, rfl, by rw [execute_of_ok ran]⟩
    | error why m =>
      rw [execute_of_error ran] at h
      cases h
  · cases h

/-- A text without problems is run by running its statements. -/
theorem run_empty (s : Session) : s.run "" = (.finished, s) := by
  have clean (mode : Mode) : (Source.ofText mode "").diagnostics = [] := by
    cases mode <;> decide +kernel
  have statements (mode : Mode) : (Source.ofText mode "").statements = [] := by
    cases mode <;> decide +kernel
  have done : interpret s.host fuel s.mode [] s.machine = .ok () s.machine := rfl
  rw [run_of_clean (clean _), statements, execute_of_ok done]

/-- Two standalone lines that finish one after the other finish as one text, with a machine that
differs in places only. -/
theorem run_join {s : Session} (blind : s.host.Blind) (mode : s.mode = .file) {text line : String}
    (h : Standalone text) (h' : Standalone line) (first : (s.run text).1 = .finished)
    (second : ((s.run text).2.run line).1 = .finished) :
    (s.run (text ++ "\n" ++ line)).1 = .finished ∧
      (s.run (text ++ "\n" ++ line)).2.machine.bare =
        ((s.run text).2.run line).2.machine.bare := by
  obtain ⟨clean, m₁, ran₁, after₁⟩ := run_eq_finished first
  rw [after₁] at second ⊢
  obtain ⟨clean', m₂, ran₂, after₂⟩ := run_eq_finished second
  obtain ⟨joined, statements⟩ := Source.ofText_join h h' (mode ▸ clean) (mode ▸ clean')
  rw [← mode] at joined statements
  have both : interpret s.host fuel s.mode ((Source.ofText s.mode text).statements ++
      (Source.ofText s.mode line).statements) s.machine = .ok () m₂ := by
    rw [interpret_append, bind_of_ok ran₁]
    exact ran₂
  obtain ⟨ending, shown⟩ := @execute_bare s s _ _ blind rfl rfl rfl statements
  rw [execute_of_ok both] at ending shown
  rw [run_of_clean joined, after₂]
  exact ⟨Ending.eq_finished_of_bare ending, shown⟩

/-- Standalone lines that finish in turn finish as one text, and this text is again standalone. -/
theorem run_intercalate {s s' : Session} (blind : s.host.Blind) (mode : s.mode = .file)
    {lines : List String} (standalone : ∀ line ∈ lines, Standalone line)
    (h : s.runLines lines = some s') :
    Standalone ("\n".intercalate lines) ∧ (s.run ("\n".intercalate lines)).1 = .finished ∧
      (s.run ("\n".intercalate lines)).2.machine.bare = s'.machine.bare := by
  induction lines generalizing s with
  | nil =>
    obtain rfl := Option.some.inj h
    have code : codeTokens "" = [] := by decide +kernel
    rw [String.intercalate_nil, run_empty]
    exact ⟨⟨by simp [code], by simp [code]⟩, rfl, rfl⟩
  | cons line rest ih =>
    obtain ⟨own, others⟩ := List.forall_mem_cons.1 standalone
    obtain ⟨first, h⟩ := runLines_cons h
    cases rest with
    | nil =>
      cases h
      rw [String.intercalate_singleton]
      exact ⟨own, first, rfl⟩
    | cons next rest =>
      obtain ⟨clean, m, ran, after⟩ := run_eq_finished first
      obtain ⟨whole, second, shown⟩ := ih (after ▸ blind) (after ▸ mode) others h
      rw [String.intercalate_cons_cons]
      obtain ⟨finished, shown'⟩ := run_join blind mode own whole first second
      exact ⟨own.join whole (Source.diagnostics_eq_nil.1 clean).1, finished, shown'.trans shown⟩

end Session

/-! ## The main statement -/

/-- **A session equals a batch run.** If standalone lines finish in turn in a fresh session, then
they finish as one text in a fresh session, with the same output, the same input left and the same
globals. Their clocks may differ if no native reads the clock. The host is pure (`Host`), so it
cannot tell the sessions apart by what it was asked before, and it sees no places. -/
theorem lines_equal_batch {console : Console} {clock₁ clock₂ : Clock} {decls : List NativeDecl}
    {host : Host} {lines : List String} {s' : Session} (blind : host.Blind)
    (timeless : clock₁ = clock₂ ∨ ∀ decl ∈ decls, decl.action ≠ .clock)
    (standalone : ∀ line ∈ lines, Standalone line)
    (runs : (Session.fresh .file console clock₁ decls host).runLines lines = some s') :
    let batch := (Session.fresh .file console clock₂ decls host).run ("\n".intercalate lines)
    batch.1 = .finished ∧ SameSights s'.machine batch.2.machine := by
  intro batch
  obtain ⟨-, finished, shown⟩ := Session.run_intercalate blind rfl standalone runs
  have fresh : (Session.fresh .file console clock₁ decls host).machine.bare =
      (Session.fresh .file console clock₂ decls host).machine.bare :=
    Machine.bare_registerAll timeless
  obtain ⟨ending, machine⟩ := Session.run_bare (.fresh .file console clock₁ decls host)
    (.fresh .file console clock₂ decls host) blind rfl rfl fresh rfl rfl
  rw [finished] at ending
  exact ⟨Ending.eq_finished_of_bare ending.symm, sameSights_of_bare (shown.symm.trans machine)⟩

/-- A function with a comment behind it, calls of it that write and read, and a use of what was
read. -/
def inquiringLines : List String :=
  ["function f(x) \x7b if (x == \"a\") print(x); else return readline(x); \x7d // ask",
    "f(\"a\");\nvar y = f(\"b\");", "print(y);"]

theorem inquiring_lines_equal_batch :
    let console : Console := { input := ["c", "d"] }
    ∃ s', (Session.fresh .file console (.still 0) timelessLibrary .none).runLines inquiringLines = some s' ∧
      let batch := (Session.fresh .file console (.still 1) timelessLibrary .none).run
        ("\n".intercalate inquiringLines)
      batch.1 = .finished ∧ SameSights s'.machine batch.2.machine := by
  intro console
  have finishes : ((Session.fresh .file console (.still 0) timelessLibrary .none).runLines
      inquiringLines).isSome = true := by decide +kernel
  obtain ⟨s', runs⟩ := Option.isSome_iff_exists.1 finishes
  exact ⟨s', runs, lines_equal_batch Host.blind_none (.inr (by decide)) (by decide +kernel) runs⟩

end Scriptlet
