/-!
# The console

Where a program writes to and reads from. Output is collected as one text; input is a list of lines
that are handed out in order. A muted console drops what is written and has nothing to read.
-/

namespace Scriptlet

structure Console where
  output : String := ""
  input : List String := []
  /-- Whether no line can follow those in `input`. -/
  ended : Bool := true
  muted : Bool := false
deriving DecidableEq, Repr

/-- What asking for a line gives. -/
inductive Console.Answer where
  | line (text : String)
  /-- There is no further line. -/
  | finished
  /-- A further line may come, but is not known yet. -/
  | unknown
deriving DecidableEq, Repr

namespace Console

def print (c : Console) (text : String) : Console :=
  if c.muted then c else { c with output := c.output ++ text }

def printLine (c : Console) (text : String) : Console := c.print (text ++ "\n")

/-- Take the next line. -/
def readLine (c : Console) : Answer × Console :=
  if c.muted then (.finished, c)
  else match c.input with
    | line :: rest => (.line line, { c with input := rest })
    | [] => (if c.ended then .finished else .unknown, c)

/-- Forget what was written. -/
def clear (c : Console) : Console := { c with output := "" }

/-- A console that ignores everything. -/
def silent : Console := { muted := true }

end Console
end Scriptlet
