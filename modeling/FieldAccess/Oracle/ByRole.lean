/-
  Deciding by role: the oracle that consults the access table of the instance.

  The roles that the actor holds are tried in the order of their names, and the first one to which the
  table grants the access is credited.  Without any role, and without any granting role, the access is
  denied, with a reason that tells the two apart.

  Core only.
-/
import FieldAccess.Oracle.Request
import FieldAccess.Oracle.RoleAssignment

namespace FieldAccess

variable {A R : Type} [Modelled R]

/-- Whether the table of an instance grants an access to a role. -/
def Modelled.grants (subject : R) (a : Action) (field : String) (r : Role) : Bool :=
  (Modelled.permissions subject).permits r a field

/-- The reason for denying an access to roles that do not have it. -/
def Verdict.noRoleReason (roles : List Role) (a : Action) (field model : String) : String :=
  "no role among [" ++ ", ".intercalate roles ++ "] may " ++ a.name ++ " '" ++ field ++ "' on " ++ model

/-- The verdict for an actor who holds some roles. -/
def Verdict.forRoles (roles : RoleSet) (subject : R) (a : Action) (field : String) : Verdict :=
  if roles.isEmpty then .deny "no applicable roles"
  else match roles.toList.find? (Modelled.grants subject a field) with
    | some r => .grantedTo r
    | none => .deny (noRoleReason roles.toList a field (Modelled.modelName subject))

/-- Decides by the roles that the actor holds. -/
def Oracle.byRoles (held : HeldRoles A R) : Oracle A R := fun q =>
  .forRoles (held q.actor q.subject) q.subject q.action q.field

omit [Modelled R] in
theorem RoleSet.find?_isSome_iff {p : Role → Bool} {roles : RoleSet} :
    (roles.toList.find? p).isSome = true ↔ ∃ r ∈ roles, p r = true := by
  simp [List.find?_isSome]

/-- Roles allow an access iff the table grants it to one of them. -/
theorem Verdict.allowed_forRoles {roles : RoleSet} {subject : R} {a : Action} {field : String} :
    (forRoles roles subject a field).allowed = true ↔
      ∃ r ∈ roles, Modelled.grants subject a field r = true := by
  unfold forRoles
  split
  · next h =>
    constructor
    · intro h'; cases h'
    · rintro ⟨r, hr, _⟩
      simp only [SortedSet.isEmpty, List.isEmpty_iff] at h
      rw [← SortedSet.mem_toList, h] at hr
      cases hr
  · rw [← RoleSet.find?_isSome_iff]
    split
    · next h => rw [h]; simp [grantedTo]
    · next h => rw [h]; simp [deny]

end FieldAccess
