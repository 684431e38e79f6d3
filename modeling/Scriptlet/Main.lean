import Scriptlet.Command
import Std.Time

/-!
# The program

Reads the file that the command needs, performs the command, and writes what it leaves behind. A
command that asks for an input line or for the time is performed again with one more line or one
more reading of the clock, which is taken at that moment; only what is new is written.
-/

namespace Scriptlet

/-- The content of a file. -/
def readContent (path : String) : IO FileContent := do
  try
    return .bytes (← IO.FS.readBinFile path)
  catch
    | .permissionDenied .. => return .denied
    | _ => return .missing

/-- The whole seconds since the beginning of 1970, below zero before it. -/
def secondsNow : IO Int := do
  let now ← Std.Time.Timestamp.now
  let passed := now.toDurationSinceUnixEpoch
  -- the two parts have one sign, so a part of a second before 1970 counts as one
  return if passed.nano.val < 0 then passed.second.val - 1 else passed.second.val

/-- The part of a text after its first characters. -/
def rest (text : String) (count : Nat) : String := String.ofList (text.toList.drop count)

end Scriptlet

open Scriptlet in
def main (args : List String) : IO UInt32 := do
  let command := Command.ofArgs args
  let content ← match command.path? with
    | some path => readContent path
    | none => pure .missing
  let stdin ← IO.getStdin
  let stdout ← IO.getStdout
  let mut input : Input := ⟨[], false⟩
  let mut readings : List Int := []
  let mut written := 0
  let mut reported := 0
  let mut status := 0
  let mut going := true
  while going do
    let transcript := command.perform content input (.ofList readings)
    stdout.putStr (rest transcript.out written)
    stdout.flush
    IO.eprint (rest transcript.err reported)
    written := transcript.out.length
    reported := transcript.err.length
    match transcript.need with
    | some .line =>
      let line ← stdin.getLine
      if line.isEmpty then input := { input with ended := true }
      else
        let known := (Input.ofText line).lines
        input := { input with lines := input.lines ++ known }
    | some .time =>
      readings := readings ++ [← secondsNow]
    | none =>
      status := transcript.status
      going := false
  return status.toUInt32
