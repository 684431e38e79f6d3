import Scriptlet.Dump
import Scriptlet.Diagnostic.Render

/-!
# The command line

What the program does for its arguments, as a function of the arguments, the files and the input
lines: it decides on a command, and the command gives the text for the two output streams and the
exit status. While an input line or a reading of the clock is missing, the result says so; it then
holds the output up to the point where what is missing is asked for.
-/

namespace Scriptlet

/-- What reading a file gives. -/
inductive FileContent where
  | missing
  | denied
  | bytes (content : ByteArray)

/-- The listings that can be asked for. -/
inductive Listing where
  | tokens
  | statements
  | highlights
deriving DecidableEq, Repr

/-- What the arguments ask for. -/
inductive Command where
  | help
  | version
  | interactive
  | run (path : String)
  | list (what : Listing) (path : String)
  /-- A command that lacks its file. -/
  | lacksFile (word : String)
  | unknown (word : String)
deriving DecidableEq, Repr

/-- What a command asks for that is not known yet. -/
inductive Need where
  | line
  | time
deriving DecidableEq, Repr

/-- What a command leaves behind. -/
structure Transcript where
  out : String := ""
  err : String := ""
  status : Nat := 0
  /-- What is needed to go on, if the command has not ended. -/
  need : Option Need := none
deriving DecidableEq, Repr

/-- The input lines known so far, and whether more can follow. -/
structure Input where
  lines : List String
  ended : Bool
deriving DecidableEq, Repr

/-- The lines of a complete input. -/
def Input.ofText (text : String) : Input := ⟨(textLines text.toList).map String.ofList, true⟩

namespace Command

/-! ## Paths -/

/-- The last component of a path that names something. -/
def fileName? (path : String) : Option String :=
  let parts := (path.splitOn "/").filter fun part => part != "" && part != "."
  match parts.getLast? with
  | some name => if name = ".." then none else some name
  | none => none

/-- What follows the last point of a file name, unless nothing stands before it. -/
def extension? (path : String) : Option String :=
  match fileName? path with
  | none => none
  | some name =>
    let (last, rest) := name.toList.reverse.span (· != '.')
    match rest with
    | _ :: _ :: _ => some (String.ofList last.reverse)
    | _ => none

/-- Whether a path has the extension of programs, in any case. -/
def isProgramPath (path : String) : Bool :=
  match extension? path with
  | some ext => ext.toLower == "simp"
  | none => false

/-! ## Arguments -/

/-- A command on a file. -/
def onFile (word : String) (make : String → Command) : List String → Command
  | path :: _ => make path
  | [] => lacksFile word

/-- The command that the arguments write. Arguments beyond those needed are ignored. -/
def ofArgs : List String → Command
  | [] => help
  | word :: rest =>
    match word with
    | "run" => onFile word run rest
    | "repl" => interactive
    | "lex" => onFile word (list .tokens) rest
    | "parse" => onFile word (list .statements) rest
    | "highlight" => onFile word (list .highlights) rest
    | "help" | "--help" | "-h" => help
    | "version" | "--version" | "-v" => version
    | _ => if isProgramPath word then run word else unknown word

/-- The file that a command reads. -/
def path? : Command → Option String
  | run path | list _ path => some path
  | _ => none

/-! ## Output -/

def usage : String :=
  "SIMP interpreter\n\n" ++
  "Usage: simp <command> [options]\n\n" ++
  "Commands:\n" ++
  "  run <file.simp>        Run a SIMP program\n" ++
  "  repl                   Start an interactive session\n" ++
  "  lex <file.simp>        Tokenize and display tokens\n" ++
  "  parse <file.simp>      Parse and display a statement summary\n" ++
  "  highlight <file.simp>  Display the per-character classification\n" ++
  "  help                   Show this help message\n" ++
  "  version                Show version information\n\n" ++
  "Set RUST_LOG (e.g. RUST_LOG=simp_eval=debug) to enable tracing.\n\n" ++
  "Examples:\n" ++
  "  simp run main.simp\n" ++
  "  simp main.simp\n" ++
  "  simp highlight main.simp\n"

/-- The text of a file, or why there is none. -/
def textOf (path : String) : FileContent → Except String String
  | .missing => .error ("cannot find file '" ++ path ++ "'\n")
  | .denied => .error ("permission denied reading '" ++ path ++ "'\n")
  | .bytes content =>
    match String.fromUTF8? content with
    | some text => .ok text
    | none => .error ("'" ++ path ++ "' contains invalid UTF-8 data\n")

def Listing.title : Listing → String
  | .tokens => "Tokens"
  | .statements => "Parse result"
  | .highlights => "Highlights"

def Listing.dump : Listing → String → String
  | .tokens => Dump.tokens
  | .statements => Dump.statements
  | .highlights => Dump.highlights

/-- The console at the start of a run. -/
def console (input : Input) : Console := { input := input.lines, ended := input.ended }

/-- What is missing, if a run ended because of that. -/
def need? : Ending → Option Need
  | .stopped .awaitingInput => some .line
  | .stopped .awaitingTime => some .time
  | _ => none

/-- Run a program and report its problems. -/
def runText (path text : String) (input : Input) (clock : Clock) : Transcript :=
  let (ending, session) := (Session.start .file (console input) clock).run text
  let problems := ending.diagnostics
  { out := session.machine.console.output
    err := Diagnostic.report false (some ⟨path, text⟩) problems
    status := if problems.isEmpty then 0 else 1
    need := need? ending }

/-- The prompt of an interactive session. -/
def prompt : String := "> "

/-- Write to the console of a session. -/
def say (s : Session) (text : String) : Session :=
  { s with machine := { s.machine with console := s.machine.console.print text } }

/-- Ask for the next line of a session's console. -/
def ask (s : Session) : Console.Answer × Session :=
  let (answer, console) := s.machine.console.readLine
  (answer, { s with machine := { s.machine with console } })

/-- Run the lines of an interactive session until the input ends. `err` are the reports so far. The
first argument bounds the number of lines. -/
def converse : Nat → Session → String → Transcript
  | 0, s, err => { out := s.machine.console.output, err }
  | n + 1, s, err =>
    match ask (say s prompt) with
    | (.finished, s) => { out := (say s "\n").machine.console.output, err }
    | (.unknown, s) => { out := s.machine.console.output, err, need := some .line }
    | (.line raw, s) =>
      let text := Text.trimEnd raw
      if text.isEmpty then converse n s err
      else
        let (ending, s) := s.run text
        let problems := ending.diagnostics
        let err := err ++ Diagnostic.report false (some ⟨"<repl>", text⟩) problems
        match need? ending with
        | some need => { out := s.machine.console.output, err, need := some need }
        | none => converse n s err

/-- What a command does. `content` is what reading the command's file gives. -/
def perform (c : Command) (content : FileContent) (input : Input) (clock : Clock) : Transcript :=
  match c with
  | help => { out := usage }
  | version => { out := "SIMP 0.1.0\n" }
  | lacksFile word => { err := "Usage: simp " ++ word ++ " <file.simp>\n", status := 1 }
  | unknown word => { out := usage, err := "Unknown command: " ++ word ++ "\n\n", status := 1 }
  | interactive =>
    converse (input.lines.length + 1) (Session.start .interactive (console input) clock) ""
  | run path =>
    match textOf path content with
    | .ok text => runText path text input clock
    | .error problem => { err := problem, status := 1 }
  | list what path =>
    match textOf path content with
    | .ok text =>
      { out := Listing.title what ++ " for '" ++ path ++ "':\n" ++ Listing.dump what text }
    | .error problem => { err := problem, status := 1 }

end Command
end Scriptlet
