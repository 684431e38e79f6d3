import Scriptlet.Eval
import Scriptlet.Token.Scan

/-!
# Sessions

A session runs one source text after the other on the same machine, so that later texts see the
globals of earlier ones. A text that cannot be scanned or read runs nothing.
-/

namespace Scriptlet

/-- A source text after scanning and reading. -/
structure Source where
  tokens : List Token
  statements : List Stmt
  /-- The problems found: first those of scanning, then those of reading. -/
  diagnostics : List Diagnostic

/-- Scan and read a text. -/
def Source.ofText (mode : Mode) (text : String) : Source :=
  let scanned := scan text
  let tokens := Scanned.tokens scanned
  let program := Program.ofTokens mode tokens
  { tokens
    statements := program.statements
    diagnostics :=
      (Scanned.problems scanned).map ScanError.diagnostic ++
        program.errors.map ReadError.diagnostic }

theorem Source.diagnostics_eq_nil {mode : Mode} {text : String} :
    (Source.ofText mode text).diagnostics = [] ↔ Scanned.problems (scan text) = [] ∧
      (Program.ofTokens mode (Scanned.tokens (scan text))).errors = [] := by
  simp [Source.ofText]

/-- A machine, how texts are read for it, and what its host does. -/
structure Session where
  machine : Machine
  mode : Mode
  host : Host

/-- How the run of a text ended. -/
inductive Ending where
  | finished
  /-- The text could not be scanned or read. -/
  | rejected (diagnostics : List Diagnostic)
  | stopped (why : Stop)

namespace Ending

/-- The diagnostics of a stopped run. -/
def ofStop : Stop → List Diagnostic
  | .fault f => [f.diagnostic]
  | .outOfFuel => [⟨.other, "the program runs too long", none, none, []⟩]
  | .awaitingInput | .awaitingTime => []

def diagnostics : Ending → List Diagnostic
  | finished => []
  | rejected ds => ds
  | stopped why => ofStop why

end Ending

namespace Session

/-- The bound on the length of a run, beyond the reach of any machine. -/
def fuel : Nat := Nat.pow 2 60

/-- Take a step on the machine of a session. -/
def perform {α : Type} : Session → Run α → Except Stop α × Session
  | ⟨machine, mode, host⟩, r =>
    match r machine with
    | .ok a machine => (.ok a, ⟨machine, mode, host⟩)
    | .error e machine => (.error e, ⟨machine, mode, host⟩)

/-- Run statements that were read without problems. -/
def execute (s : Session) (statements : List Stmt) : Ending × Session :=
  match s.perform (interpret s.host fuel s.mode statements) with
  | (.ok _, s) => (.finished, s)
  | (.error why, s) => (.stopped why, s)

/-- Run a text. -/
def run (s : Session) (text : String) : Ending × Session :=
  let source := Source.ofText s.mode text
  if source.diagnostics.isEmpty then s.execute source.statements
  else (.rejected source.diagnostics, s)

/-- Call a global with arguments. -/
def call (s : Session) (callee : Value) (args : List Value) : Except Stop Value × Session :=
  s.perform (callValue s.host fuel callee args)

/-- A session with the standard library. -/
def start (mode : Mode) (console : Console) (clock : Clock) : Session :=
  ⟨Machine.start console clock, mode, Host.none⟩

end Session
end Scriptlet
