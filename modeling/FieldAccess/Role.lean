/-
  Roles: names under which permissions are granted.

  The role `public` is held by everyone, also by an actor who is not known.  A set of roles is listed
  in the order of the names, which decides the role that an answer mentions.

  Core only.
-/
import FieldAccess.Collections.SortedSet

namespace FieldAccess

/-- A role is its name. -/
abbrev Role := String

namespace Role

/-- The role of everyone. -/
def everyone : Role := "public"

/-- Whether a role is the role of everyone. -/
def isEveryone (r : Role) : Bool := r = everyone

end Role

/-- A set of roles, in the order of their names. -/
abbrev RoleSet := SortedSet Role

end FieldAccess
