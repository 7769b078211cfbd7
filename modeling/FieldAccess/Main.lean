/-
  The command line tool.

  The only part with effects: it reads the file that the command names, prints what the command comes
  to, and ends with its exit code.  Messages about failures go to the error output.
-/
import FieldAccess.Tool.Run

namespace FieldAccess.Tool

/-- Reads a file, if it can be read. -/
def readText (name : String) : IO (Option String) := do
  try return some (← IO.FS.readFile name) catch _ => return none

end FieldAccess.Tool

open FieldAccess.Tool

/-- Runs the tool. -/
def main (args : List String) : IO UInt32 := do
  match Command.ofArguments args with
  | .error _ =>
    let ending := run (fun _ => none) args
    IO.print ending.output
    return ending.exit.toUInt32
  | .ok c =>
    let text ← readText c.file
    match c.carryOut fun _ => text with
    | .ok ending =>
      IO.print ending.output
      return ending.exit.toUInt32
    | .error failure =>
      IO.eprintln ("Error: " ++ ": ".intercalate failure.chain)
      return 1
