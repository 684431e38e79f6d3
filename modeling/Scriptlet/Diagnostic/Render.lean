import Scriptlet.Diagnostic
import Scriptlet.Lines

/-!
# Rendered diagnostics

The form of a diagnostic on a terminal: a headline, the place, the quoted line with carets under
the characters in question, and the notes. Without the text that the diagnostic is about, only the
line is named.
-/

namespace Scriptlet

/-- When a report uses colours. -/
inductive ColourMode where
  | auto
  | always
  | never
deriving DecidableEq, Repr

/-- Whether colours are used, given whether the report goes to a terminal. -/
def ColourMode.enabled : ColourMode → Bool → Bool
  | auto, terminal => terminal
  | always, _ => true
  | never, _ => false

/-- The colours of a report. -/
inductive Ink where
  | alarm
  | bold
  | gutter
deriving DecidableEq, Repr

/-- The control sequence that switches to a colour. -/
def Ink.start : Ink → String
  | alarm => "\x1b[1;31m"
  | bold => "\x1b[1m"
  | gutter => "\x1b[1;34m"

/-- A text in a colour, or plain if colours are off. -/
def Ink.paint (ink : Ink) (colours : Bool) (text : String) : String :=
  if colours then ink.start ++ text ++ "\x1b[0m" else text

/-- The text that diagnostics are about, and the name it goes by. -/
structure Origin where
  path : String
  text : String
deriving DecidableEq, Repr

/-- `n` times the same character. -/
def fill (c : Char) (n : Nat) : String := String.ofList (List.replicate n c)

/-- Where a snippet points: a position, and how many carets stand under it. -/
structure Mark where
  position : Position
  width : Nat
deriving DecidableEq, Repr

namespace Diagnostic

/-- The place a diagnostic marks in a text. A span gets at least one caret, a bare line none. -/
def mark? (d : Diagnostic) (text : String) : Option Mark :=
  match d.span, d.line with
  | some span, _ => some ⟨(LineTable.ofText text).position span.start, max span.length 1⟩
  | none, some line => some ⟨⟨line, 1⟩, 0⟩
  | none, none => none

/-- The carets under the quoted line. -/
def underline (m : Mark) : String := " " ++ fill ' ' (m.position.column - 1) ++ fill '^' m.width

/-- The quoted line with its locator and its carets. -/
def snippet (colours : Bool) (origin : Origin) (m : Mark) : String :=
  let line := toString m.position.line
  let blank := fill ' ' line.length ++ " |"
  let quoted := (lineText? origin.text m.position.line).getD ""
  let carets := if 0 < m.width then Ink.alarm.paint colours (underline m) else ""
  "  --> " ++ origin.path ++ ":" ++ line ++ ":" ++ toString m.position.column ++ "\n" ++
    Ink.gutter.paint colours blank ++ "\n" ++
    Ink.gutter.paint colours (line ++ " |") ++ " " ++ quoted ++ "\n" ++
    Ink.gutter.paint colours blank ++ carets ++ "\n"

/-- The part of a report that shows the place. -/
def place (d : Diagnostic) (colours : Bool) : Option Origin → String
  | some origin => ((d.mark? origin.text).map (snippet colours origin)).getD ""
  | none =>
    match d.line with
    | some line => "  --> line " ++ toString line ++ "\n"
    | none => ""

/-- The full report of one diagnostic. -/
def render (colours : Bool) (origin : Option Origin) (d : Diagnostic) : String :=
  let note (text : String) := "  = " ++ Ink.bold.paint colours "note" ++ ": " ++ text ++ "\n"
  Ink.alarm.paint colours "error" ++ Ink.bold.paint colours ("[" ++ d.code.text ++ "]") ++ ": " ++
    d.message ++ "\n" ++ d.place colours origin ++ String.join (d.notes.map note)

/-- The closing line of a report; nothing if there was no problem. -/
def summary : Nat → String
  | 0 => ""
  | 1 => "1 error emitted\n"
  | n => toString n ++ " errors emitted\n"

/-- The report of a list of diagnostics. -/
def report (colours : Bool) (origin : Option Origin) (ds : List Diagnostic) : String :=
  String.join (ds.map (render colours origin)) ++ summary ds.length

end Diagnostic
end Scriptlet
