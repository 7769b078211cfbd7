/-
  Users: a model of three fields, with a table and rules of its own.

  Everyone reads the identity and the user name; the user reads everything, may create and update both
  names and may clear the full name; an administrator may do anything.  Fields hold strings, and only
  the full name may be missing.

  Core only.
-/
import FieldAccess.Models.Viewer
import FieldAccess.Policy.Compile

namespace FieldAccess

/-- An account. -/
structure User where
  id : String
  username : String
  fullname : Option String
deriving DecidableEq, Inhabited

namespace User

/-! ## Permissions -/

/-- The permissions of users, as declared. -/
def declaration : Declaration where
  publicRules := OrderedMap.ofList [(.read, [.single .read ["id", "username"]])]
  roles := OrderedMap.ofList [
    ("self", .rules [
      .grant [.create, .update] (OrderedSet.ofList ["username", "fullname"]),
      .everyField .read,
      .single .delete ["fullname"]]),
    ("admin", .everything)]

/-- The access table of users. -/
def table : AccessTable := declaration.compile

instance : Modelled User where
  modelName _ := "User"
  permissions _ := table

/-! ## Fields -/

/-- The value of a field. -/
def field? (u : User) (name : String) : Option Json :=
  if name = "id" then some (.string u.id)
  else if name = "username" then some (.string u.username)
  else if name = "fullname" then some (u.fullname.elim .null .string)
  else none

/-- The string in a value. -/
def stringOf : Json → Except FieldFault String
  | .string s => .ok s
  | v => .error (.stringExpected v)

/-- The string in a value, or nothing in `null`. -/
def optionalStringOf : Json → Except FieldFault (Option String)
  | .null => .ok none
  | v => (stringOf v).map some

/-- Assigns a value to a field. -/
def setField (name : String) (v : Json) : Edit User Unit := do
  if name = "id" then
    let id ← stringOf v
    modify fun u => { u with id }
  else if name = "username" then
    let username ← stringOf v
    modify fun u => { u with username }
  else if name = "fullname" then
    let fullname ← optionalStringOf v
    modify fun u => { u with fullname }
  else throw .noSuchField

/-- Empties a field; only the full name can be empty. -/
def clearField (name : String) : Edit User Unit :=
  if name = "fullname" then modify fun u => { u with fullname := none }
  else if name = "id" ∨ name = "username" then throw .required
  else throw .noSuchField

instance : Resource User where
  fieldNames _ := ["id", "username", "fullname"]
  readField := field?
  writeField := setField
  clearField := clearField

/-- The roles that viewers hold on a user. -/
def roleAssignments : RoleAssignments Viewer User := [
  .everyone,
  .known "self" fun v u => v.id = u.id,
  .known "admin" fun v _ => v.admin]

end User

end FieldAccess
