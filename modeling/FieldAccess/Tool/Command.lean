/-
  The commands of the tool, on the text of one permissions file.

  1. **Loading** — the text is read as a declaration and worked out; the model is named after the
     file, without its last extension, or `model` if the path names no file.

  2. **Commands** — `normalize` prints the normal form, `inspect` lists every grant, and `check`
     decides one access for someone who holds the given roles.

  3. **Failures** — a failure says during which step it arose, and its chain of causes.

  Core only.
-/
import FieldAccess.Policy.NormalForm
import FieldAccess.Oracle.ByRole
import FieldAccess.Text.Padding
import FieldAccess.Tool.Path

namespace FieldAccess.Tool

/-! ## Files -/

/-- A file as the tool finds it: its name, and its text if it can be read. -/
structure File where
  name : String
  text : Option String
deriving DecidableEq, Inhabited

/-- Why a command fails. -/
inductive Failure where
  | missing (file : String)
  | loading (file : String) (error : AccessError)
  | arguments (error : AccessError)
deriving Inhabited

/-- The messages of a failure, from the outermost to its last cause. -/
def Failure.chain : Failure → List String
  | missing file => ["reading " ++ file, "No such file or directory (os error 2)"]
  | loading file e => ["loading " ++ file, e.message] ++ e.cause?.toList
  | arguments e => [e.message] ++ e.cause?.toList

/-! ## Loading -/

/-- A permissions file as a model. -/
structure Model where
  name : String
  table : AccessTable

instance : Modelled Model where
  modelName := Model.name
  permissions := Model.table

/-- The name of the model in a file: that of the file without its last extension, if the file has one. -/
def modelName (path : String) : String := ((Path.name? path).map Path.stem).getD "model"

/-- Loads a permissions file. -/
def load (f : File) : Except Failure Model := do
  match f.text with
  | none => throw (.missing f.name)
  | some text =>
    let table ← (AccessTable.parse text).mapError (.loading f.name)
    return ⟨modelName f.name, table⟩

/-! ## Commands -/

/-- Prints the normal form. -/
def normalize (f : File) : Except Failure String := do return (← load f).table.pretty

/-- The width of the column of actions. -/
def actionWidth : Nat := 8

/-- The line of an action. -/
def actionLine (e : Action × FieldSet) : String :=
  "    " ++ Text.padRight actionWidth e.1.name ++ " " ++ ", ".intercalate e.2.toList ++ "\n"

/-- The lines of a role. -/
def roleLines (e : Role × ActionTable) : String :=
  "  " ++ e.1 ++ "\n" ++ String.join (e.2.entries.map actionLine)

/-- The listing of a model. -/
def Model.listing (m : Model) : String :=
  m.name ++ "\n" ++ String.join (m.table.roles.entries.map roleLines)

/-- Lists every grant. -/
def inspect (f : File) : Except Failure String := do return (← load f).listing

/-- Decides one access for someone who holds some roles. -/
def check (f : File) (roles : List Role) (action field : String) : Except Failure Verdict := do
  let m ← load f
  let a ← (Action.read? action).mapError fun d => .arguments (.configuration d)
  return Verdict.forRoles (SortedSet.ofList roles) m a field

/-- How a verdict is printed. -/
def verdictText (v : Verdict) : String :=
  if v.allowed then
    match v.role with
    | some r => "allowed (role: " ++ r ++ ")"
    | none => "allowed"
  else "denied: " ++ v.reason

end FieldAccess.Tool
