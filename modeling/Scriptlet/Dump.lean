import Scriptlet.Paint
import Scriptlet.Lines
import Scriptlet.Tree.Outline

/-!
# Dumps

Listings of what scanning, reading and painting make of a text.
-/

namespace Scriptlet.Dump

/-- A line of a listing. -/
def line (text : String) : String := text ++ "\n"

/-- One line for a token. -/
def tokenLine (t : Token) : String :=
  line ("  " ++ t.kind.label ++ " " ++ Text.quoted t.lexeme ++ " @ " ++ t.span.text ++ " (line " ++
    toString t.line ++ ")")

/-- The tokens of a text, and the problems of scanning it. -/
def tokens (text : String) : String :=
  let scanned := scan text
  String.join ((Scanned.tokens scanned).map tokenLine) ++
    String.join ((Scanned.problems scanned).map fun e => line ("  error: " ++ e.text))

/-- A titled part of a listing; nothing if it has no lines. -/
def part (title : String) (lines : List String) : String :=
  if lines.isEmpty then ""
  else "\n" ++ line (title ++ ":") ++ String.join (lines.map fun l => line ("  " ++ l))

/-- The statements of a text in outline, and the problems of scanning and reading it. -/
def statements (text : String) : String :=
  let source := Source.ofText .file text
  line ("  Statements: " ++ toString source.statements.length) ++
    line ("  Errors: " ++ toString source.diagnostics.length) ++
    part "Statements" (source.statements.map Stmt.outline) ++
    part "Errors" (source.diagnostics.map Diagnostic.text)

/-- The highlighted stretches of a text. -/
def highlights (text : String) : String :=
  let table := LineTable.ofText text
  String.join <| (paint text).runs.map fun run =>
    let position := table.position run.span.start
    line ("  " ++ toString position.line ++ ":" ++ toString position.column ++ " " ++
      run.highlight.label ++ " " ++ Text.quoted (run.span.slice text))

end Scriptlet.Dump
