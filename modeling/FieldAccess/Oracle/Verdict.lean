/-
  Verdicts: the answer to one question about access.

  A verdict says whether the access is allowed, for what reason, and by which role if a role is known
  to have granted it.  In JSON it is an object of three fields; it is also read from a list of them.

  Core only.
-/
import FieldAccess.Role
import FieldAccess.Json.Printer
import FieldAccess.Json.Typed

namespace FieldAccess

/-- The answer to a question about access. -/
structure Verdict where
  allowed : Bool
  /-- The role that granted the access, when known. -/
  role : Option Role
  reason : String
deriving DecidableEq, Inhabited

namespace Verdict

/-- Allowed by the grant of a role. -/
def grantedTo (r : Role) : Verdict := ⟨true, some r, "granted to role '" ++ r ++ "'"⟩

/-- Allowed without naming a role. -/
def allow (reason : String) : Verdict := ⟨true, none, reason⟩

/-- Denied. -/
def deny (reason : String) : Verdict := ⟨false, none, reason⟩

/-! ## In JSON -/

/-- A verdict as an object. -/
def toJson (v : Verdict) : Json := .object [
  ("allowed", .bool v.allowed),
  ("matched_role", v.role.elim .null .string),
  ("reason", .string v.reason)]

open Json (Reader)

/-- The fields of a verdict that were read so far. -/
structure Gathered where
  allowed : Option Bool := none
  role : Option (Option Role) := none
  reason : Option String := none

/-- How a verdict is read. -/
def fields : Reader.Fields Gathered where
  wanted := "struct Decision"
  start := {}
  slots := [
    { name := "allowed"
      given := fun p => p.allowed.isSome
      fill := fun p => do return { p with allowed := some (← Reader.bool) } },
    { name := "matched_role"
      given := fun p => p.role.isSome
      fill := fun p => do return { p with role := some (← Reader.optional Reader.string) } },
    { name := "reason"
      given := fun p => p.reason.isSome
      fill := fun p => do return { p with reason := some (← Reader.string) } }]

/-- A verdict from the fields of an object; the role may be left out. -/
def ofFields (p : Gathered) : Reader Verdict :=
  match p.allowed, p.reason with
  | none, _ => Reader.fail (.missingField "allowed")
  | _, none => Reader.fail (.missingField "reason")
  | some allowed, some reason => pure ⟨allowed, p.role.join, reason⟩

/-- A verdict from the items of a list, none of which may be left out. -/
def ofItems : Gathered × Nat → Reader Verdict
  | (⟨some allowed, some role, some reason⟩, _) => pure ⟨allowed, role, reason⟩
  | (_, n) => Reader.fail (.tooShort n "struct Decision with 3 elements")

/-- Reads a verdict. -/
def reader : Reader Verdict := fields.read ofItems ofFields

end Verdict

end FieldAccess
