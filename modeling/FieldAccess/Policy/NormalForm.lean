/-
  The normal form of an access table in JSON, and the parts of it.

  1. **Writing** — a table is an object of roles, a role an object of actions, an action a list of
     fields, all in order.  An action is written by its name, so two actions with one name give two
     equal keys.

  2. **Reading** — the normal form is read straight into a table; a repeated key replaces the earlier
     value where that stands.

  Core only.
-/
import FieldAccess.Policy.Compile
import FieldAccess.Json.Typed

namespace FieldAccess

/-! ## Writing -/

/-- A list of strings. -/
def Json.ofStrings (ss : List String) : Json := .array (ss.map .string)

/-- A field set as a list. -/
def FieldSet.toJson (fs : FieldSet) : Json := Json.ofStrings fs.toList

/-- The actions of a role as an object. -/
def ActionTable.toJson (t : ActionTable) : Json :=
  .object (t.entries.map fun e => (e.1.name, FieldSet.toJson e.2))

namespace AccessTable

/-- The normal form of a table. -/
def toJson (t : AccessTable) : Json :=
  .object (t.roles.entries.map fun e => (e.1, ActionTable.toJson e.2))

/-- The normal form as pretty text. -/
def pretty (t : AccessTable) : String := t.toJson.pretty

/-- The normal form as compact text. -/
def compact (t : AccessTable) : String := t.toJson.compact

end AccessTable

/-! ## Reading -/

open Json (Reader)

/-- Takes a name for an action; the empty name is refused. -/
def Action.ofText (n : String) : Reader Action :=
  match Action.read? n with
  | .ok a => pure a
  | .error d => Reader.fail (.refused (AccessError.configuration d).message)

/-- Reads an action. -/
def Action.reader : Reader Action := do Action.ofText (← Reader.string)

/-- Reads a role. -/
def Role.reader : Reader Role := Reader.string

/-- Reads a field set. -/
def FieldSet.reader : Reader FieldSet := do
  return OrderedSet.ofList (← Reader.list "a set" Reader.string)

/-- Reads the actions of a role. -/
def ActionTable.reader : Reader ActionTable := Reader.map "a map" Action.ofText FieldSet.reader

namespace AccessTable

/-- Reads the normal form of a table. -/
def reader : Reader AccessTable := do return ⟨← Reader.map "a map" pure ActionTable.reader⟩

/-- The table whose normal form a text is. -/
def ofNormalForm (text : String) : Except AccessError AccessTable :=
  (reader.run text).mapError .json

end AccessTable

end FieldAccess
