/-
  Running a command line: what the tool prints and how it ends.

  Exit codes are 0 for success, 1 for a denied access or a failure, and 2 for misuse.  Failures and
  misuse print nothing.

  Core only.
-/
import FieldAccess.Tool.Command
import FieldAccess.Tool.Arguments

namespace FieldAccess.Tool

/-- How the tool ends. -/
structure Ending where
  exit : Nat
  output : String
deriving DecidableEq, Inhabited

/-- The help text. -/
def helpText : String :=
  "Commands:\n" ++
  "  normalize <FILE>  print the normalized permission table\n" ++
  "  inspect <FILE>    list roles, actions and fields\n" ++
  "  check <FILE> --role <ROLE>... --action <ACTION> --field <FIELD>\n" ++
  "                    decide one access\n"

/-- Carries out a command on the file that it names. -/
def Command.carryOut (texts : String → Option String) : Command → Except Failure Ending
  | .normalize file => do return ⟨0, (← Tool.normalize ⟨file, texts file⟩) ++ "\n"⟩
  | .inspect file => do return ⟨0, ← Tool.inspect ⟨file, texts file⟩⟩
  | .check file roles action field => do
    let v ← Tool.check ⟨file, texts file⟩ roles action field
    return ⟨if v.allowed then 0 else 1, verdictText v ++ "\n"⟩

/-- Runs a command line; `texts` gives the text of each file that can be read. -/
def run (texts : String → Option String) (args : List String) : Ending :=
  match Command.ofArguments args with
  | .error .help => ⟨0, helpText⟩
  | .error .misuse => ⟨2, ""⟩
  | .ok c =>
    match c.carryOut texts with
    | .ok e => e
    | .error _ => ⟨1, ""⟩

/-- The name of the file that a command reads. -/
def Command.file : Command → String
  | .normalize file => file
  | .inspect file => file
  | .check file .. => file

end FieldAccess.Tool
