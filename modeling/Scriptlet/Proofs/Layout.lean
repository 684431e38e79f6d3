import Scriptlet.Proofs.Blind
import Scriptlet.Proofs.Reader.Blind
import Scriptlet.Proofs.Stack

/-!
# Layout does not matter

Two texts whose tokens agree, comments aside, in kind, lexeme and literal are the same program, laid
out differently. They are accepted or rejected together, for the same reasons, and running them does
the same (`layout_irrelevant`). Reading and running do not look at places, so each side is compared
with its shape.
-/

namespace Scriptlet

/-! ## What is seen from outside -/

/-- A diagnostic without its place. -/
def Diagnostic.bare (d : Diagnostic) : Diagnostic :=
  { d with span := d.span.map fun _ => .nowhere, line := d.line.map fun _ => 1 }

/-- How a run ended, without places. -/
def Ending.bare : Ending → Ending
  | finished => finished
  | rejected ds => rejected (ds.map Diagnostic.bare)
  | stopped why => stopped why.bare

/-- What can be seen of a global, up to a depth. -/
def Machine.observed? (m : Machine) (depth : Nat) (name : String) : Option Observed :=
  (m.global? name).map (m.heap.observeWithin depth [])

/-- Two machines wrote the same, have the same input left, and show the same globals. -/
structure SameSights (m₁ m₂ : Machine) : Prop where
  console : m₁.console = m₂.console
  globals : ∀ depth name, m₁.observed? depth name = m₂.observed? depth name

theorem Machine.observed?_bare (m : Machine) (depth : Nat) (name : String) :
    m.bare.observed? depth name = m.observed? depth name := by
  have same : m.bare.heap.observeWithin depth [] = m.heap.observeWithin depth [] :=
    funext (m.heap.bare_observeWithin depth [])
  rw [observed?, same]
  rfl

/-- Places cannot be seen. -/
theorem sameSights_of_bare {m₁ m₂ : Machine} (same : m₁.bare = m₂.bare) : SameSights m₁ m₂ where
  console := congrArg (·.console) same
  globals depth name := by
    rw [← m₁.observed?_bare, same, m₂.observed?_bare]

/-! ## Reading -/

/-- What a token says, apart from its place. -/
def Token.content (t : Token) : TokenKind × String × Option Literal := (t.kind, t.lexeme, t.literal)

/-- The tokens of a text without its comments. -/
def visibleTokens (text : String) : List Token :=
  (Scanned.tokens (scan text)).filter (!·.kind.isTrivia)

theorem map_bare_of_content {tokens₁ tokens₂ : List Token}
    (same : tokens₁.map Token.content = tokens₂.map Token.content) :
    tokens₁.map Token.bare = tokens₂.map Token.bare := by
  have factors (tokens : List Token) : tokens.map Token.bare = (tokens.map Token.content).map
      fun c => ⟨c.1, c.2.1, 1, c.2.2, .nowhere⟩ := by
    rw [List.map_map]
    rfl
  rw [factors, same, ← factors]

/-- Comments are not read. -/
theorem Program.ofTokens_visible (mode : Mode) (tokens : List Token) :
    Program.ofTokens mode (tokens.filter (!·.kind.isTrivia)) = Program.ofTokens mode tokens := by
  unfold Program.ofTokens Stream.ofTokens
  rw [List.filter_filter]
  simp only [Bool.and_self]

theorem Program.bare_eq_of_content {mode : Mode} {tokens₁ tokens₂ : List Token}
    (same : (tokens₁.filter (!·.kind.isTrivia)).map Token.content =
      (tokens₂.filter (!·.kind.isTrivia)).map Token.content) :
    (Program.ofTokens mode tokens₁).bare = (Program.ofTokens mode tokens₂).bare := by
  rw [← ofTokens_visible mode tokens₁, ← ofTokens_visible mode tokens₂, ← ofTokens_bare,
    map_bare_of_content same, ofTokens_bare]

theorem Source.diagnostics_of_scanned {mode : Mode} {text : String}
    (scanned : Scanned.problems (scan text) = []) :
    (Source.ofText mode text).diagnostics =
      (Program.ofTokens mode (Scanned.tokens (scan text))).errors.map ReadError.diagnostic := by
  simp [Source.ofText, scanned]

/-- The problems of a text without places are those of its program without places. -/
theorem Source.bare_diagnostics {mode : Mode} {text : String}
    (scanned : Scanned.problems (scan text) = []) :
    (Source.ofText mode text).diagnostics.map Diagnostic.bare =
      (Program.ofTokens mode (Scanned.tokens (scan text))).bare.errors.map
        ReadError.diagnostic := by
  rw [diagnostics_of_scanned scanned, Program.bare, List.map_map, List.map_map]
  rfl

/-! ## Running -/

namespace Session

theorem run_of_clean {s : Session} {text : String}
    (clean : (Source.ofText s.mode text).diagnostics = []) :
    s.run text = s.execute (Source.ofText s.mode text).statements := by
  simp only [run, clean, List.isEmpty_nil, if_true]

theorem run_of_problems {s : Session} {text : String}
    (problems : (Source.ofText s.mode text).diagnostics ≠ []) :
    s.run text = (.rejected (Source.ofText s.mode text).diagnostics, s) := by
  rw [run, if_neg]
  rwa [List.isEmpty_iff]

theorem execute_of_ok {s : Session} {p : List Stmt} {m : Machine}
    (h : interpret s.host fuel s.mode p s.machine = .ok () m) :
    s.execute p = (.finished, { s with machine := m }) := by
  obtain ⟨machine, mode, host⟩ := s
  simp only [execute, perform, h]

theorem execute_of_error {s : Session} {p : List Stmt} {why : Stop} {m : Machine}
    (h : interpret s.host fuel s.mode p s.machine = .error why m) :
    s.execute p = (.stopped why, { s with machine := m }) := by
  obtain ⟨machine, mode, host⟩ := s
  simp only [execute, perform, h]

/-- What statements do is determined by their shapes and by what the machine shows. -/
theorem execute_bare {s₁ s₂ : Session} {p₁ p₂ : List Stmt} (blind : s₁.host.Blind)
    (mode : s₁.mode = s₂.mode) (host : s₁.host = s₂.host)
    (machine : s₁.machine.bare = s₂.machine.bare)
    (program : p₁.map Stmt.bare = p₂.map Stmt.bare) :
    (s₁.execute p₁).1.bare = (s₂.execute p₂).1.bare ∧
      (s₁.execute p₁).2.machine.bare = (s₂.execute p₂).2.machine.bare := by
  have first := Run.agree_interpret blind fuel s₁.mode p₁ s₁.machine
  have second := Run.agree_interpret (host ▸ blind) fuel s₂.mode p₂ s₂.machine
  have shown : Run.places.outcome id (interpret s₁.host fuel s₁.mode p₁ s₁.machine) =
      Run.places.outcome id (interpret s₂.host fuel s₂.mode p₂ s₂.machine) := by
    rw [← first, ← second, program, mode, host]
    exact congrArg (interpret s₂.host fuel s₂.mode (p₂.map Stmt.bare)) machine
  cases run₁ : interpret s₁.host fuel s₁.mode p₁ s₁.machine with
  | ok u₁ m₁ =>
    cases run₂ : interpret s₂.host fuel s₂.mode p₂ s₂.machine with
    | ok u₂ m₂ =>
      rw [run₁, run₂] at shown
      rw [execute_of_ok run₁, execute_of_ok run₂]
      injection shown with _ same
      exact ⟨rfl, same⟩
    | error why₂ m₂ =>
      rw [run₁, run₂] at shown
      cases shown
  | error why₁ m₁ =>
    cases run₂ : interpret s₂.host fuel s₂.mode p₂ s₂.machine with
    | ok u₂ m₂ =>
      rw [run₁, run₂] at shown
      cases shown
    | error why₂ m₂ =>
      rw [run₁, run₂] at shown
      rw [execute_of_error run₁, execute_of_error run₂]
      injection shown with why same
      exact ⟨congrArg Ending.stopped why, same⟩

/-- What a text does is determined by its problems and statements without their places. -/
theorem run_bare (s₁ s₂ : Session) {text₁ text₂ : String} (blind : s₁.host.Blind)
    (mode : s₁.mode = s₂.mode) (host : s₁.host = s₂.host)
    (machine : s₁.machine.bare = s₂.machine.bare)
    (problems : (Source.ofText s₁.mode text₁).diagnostics.map Diagnostic.bare =
      (Source.ofText s₂.mode text₂).diagnostics.map Diagnostic.bare)
    (program : (Source.ofText s₁.mode text₁).statements.map Stmt.bare =
      (Source.ofText s₂.mode text₂).statements.map Stmt.bare) :
    (s₁.run text₁).1.bare = (s₂.run text₂).1.bare ∧
      (s₁.run text₁).2.machine.bare = (s₂.run text₂).2.machine.bare := by
  have together : (Source.ofText s₁.mode text₁).diagnostics.isEmpty =
      (Source.ofText s₂.mode text₂).diagnostics.isEmpty := by
    rw [← List.isEmpty_map, problems, List.isEmpty_map]
  simp only [run, together]
  split
  · exact execute_bare blind mode host machine program
  · exact ⟨congrArg Ending.rejected problems, machine⟩

end Session

namespace Machine

/-- Natives are registered in the same way whatever the time is. -/
theorem registerAll_withClock (m : Machine) (clock : Clock) (decls : List NativeDecl) :
    registerAll { m with clock } decls = { m.registerAll decls with clock } := by
  induction decls generalizing m with
  | nil => rfl
  | cons decl rest ih => exact ih (m.register decl)

theorem readsClock_registerAll {m : Machine} {decls : List NativeDecl}
    (timeless : ∀ decl ∈ decls, decl.action ≠ .clock) (before : m.heap.readsClock = false) :
    (m.registerAll decls).heap.readsClock = false := by
  induction decls generalizing m with
  | nil => exact before
  | cons decl rest ih =>
    obtain ⟨own, others⟩ := List.forall_mem_cons.1 timeless
    refine ih others ?_
    have silent : (Routine.native decl.name decl.arity decl.action).readsClock = false := by
      unfold Routine.readsClock
      split
      · next same => exact absurd (Routine.native.inj same).2.2 own
      · rfl
    simpa [register, Heap.addFunction, Heap.readsClock, silent] using before

/-- The time at which a session starts does not show unless a native tells it. -/
theorem bare_registerAll {console : Console} {clock₁ clock₂ : Clock} {decls : List NativeDecl}
    (timeless : clock₁ = clock₂ ∨ ∀ decl ∈ decls, decl.action ≠ .clock) :
    ((initial console clock₁).registerAll decls).bare =
      ((initial console clock₂).registerAll decls).bare := by
  rcases timeless with rfl | timeless
  · rfl
  · have other := registerAll_withClock (initial console clock₁) clock₂ decls
    have silent : ((initial console clock₁).registerAll decls).heap.readsClock = false :=
      readsClock_registerAll timeless (by simp [initial, Heap.empty, Heap.readsClock])
    rw [show initial console clock₂ = { initial console clock₁ with clock := clock₂ } from rfl,
      other]
    simp [bare, silent]

end Machine

/-! ## The main statement -/

/-- **Layout and comments do not matter.** Two texts that scan without problems and whose tokens
agree up to comments and places have the same problems, and running them in fresh sessions ends in
the same way, with the same output, the same input left and the same globals. Their clocks may
differ if no native reads the clock. The host is pure (`Host`) and sees no places. -/
theorem layout_irrelevant {mode : Mode} {console : Console} {clock₁ clock₂ : Clock}
    {decls : List NativeDecl} {host : Host} {text₁ text₂ : String} (blind : host.Blind)
    (timeless : clock₁ = clock₂ ∨ ∀ decl ∈ decls, decl.action ≠ .clock)
    (scanned₁ : Scanned.problems (scan text₁) = [])
    (scanned₂ : Scanned.problems (scan text₂) = [])
    (alike : (visibleTokens text₁).map Token.content = (visibleTokens text₂).map Token.content) :
    let run₁ := (Session.fresh mode console clock₁ decls host).run text₁
    let run₂ := (Session.fresh mode console clock₂ decls host).run text₂
    (Source.ofText mode text₁).diagnostics.map Diagnostic.bare =
        (Source.ofText mode text₂).diagnostics.map Diagnostic.bare ∧
      run₁.1.bare = run₂.1.bare ∧ SameSights run₁.2.machine run₂.2.machine := by
  intro run₁ run₂
  have program : (Program.ofTokens mode (Scanned.tokens (scan text₁))).bare =
      (Program.ofTokens mode (Scanned.tokens (scan text₂))).bare := Program.bare_eq_of_content alike
  have problems : (Source.ofText mode text₁).diagnostics.map Diagnostic.bare =
      (Source.ofText mode text₂).diagnostics.map Diagnostic.bare := by
    rw [Source.bare_diagnostics scanned₁, Source.bare_diagnostics scanned₂, program]
  have statements : (Source.ofText mode text₁).statements.map Stmt.bare =
      (Source.ofText mode text₂).statements.map Stmt.bare := congrArg (·.statements) program
  have fresh : (Session.fresh mode console clock₁ decls host).machine.bare =
      (Session.fresh mode console clock₂ decls host).machine.bare :=
    Machine.bare_registerAll timeless
  obtain ⟨ending, machine⟩ := Session.run_bare (.fresh mode console clock₁ decls host)
    (.fresh mode console clock₂ decls host) blind rfl rfl fresh problems statements
  exact ⟨problems, ending, sameSights_of_bare machine⟩

/-- The standard library without the function that reads the clock. -/
def timelessLibrary : List NativeDecl := standardLibrary.filter (·.action != .clock)

/-- A program in one line, and the same program over several lines with comments. -/
theorem spread_program_irrelevant :
    let compact := "function f(x)\x7bprint(x+\"!\");\x7df(\"a\");f(b);"
    let spread :=
      "// greet\nfunction f(x)\n\x7b\n print(x + \"!\"); // loudly\n\x7d\nf(\"a\");\nf( b );\n"
    let run₁ := (Session.fresh .file {} (.still 0) timelessLibrary .none).run compact
    let run₂ := (Session.fresh .file {} (.still 1) timelessLibrary .none).run spread
    (Source.ofText .file compact).diagnostics.map Diagnostic.bare =
        (Source.ofText .file spread).diagnostics.map Diagnostic.bare ∧
      run₁.1.bare = run₂.1.bare ∧ SameSights run₁.2.machine run₂.2.machine :=
  layout_irrelevant Host.blind_none (.inr (by decide)) (by decide +kernel) (by decide +kernel)
    (by decide +kernel)

end Scriptlet
