/-
  Role assignments: which roles an actor holds on a model instance.

  1. **Assignments** — an assignment names a role and says when it is held: always, when the actor is
     known and meets a condition, or when actor and instance meet a condition.

  2. **Roles held** — the roles of all assignments that apply, as a set; order and repetition of the
     assignments do not matter (`held_congr`).

  Core only.
-/
import FieldAccess.Role
import FieldAccess.Text.Shown

namespace FieldAccess

variable {A R : Type}

/-- Says when an actor holds a role on an instance. -/
structure RoleAssignment (A R : Type) where
  role : Role
  applies : Option A → R → Bool

namespace RoleAssignment

/-- The role of everyone, which is always held. -/
def everyone : RoleAssignment A R := ⟨Role.everyone, fun _ _ => true⟩

/-- A role that only a known actor holds, on a condition. -/
def known (r : Role) (p : A → R → Bool) : RoleAssignment A R :=
  ⟨r, fun actor subject => actor.any fun a => p a subject⟩

/-- A role that is held on a condition. -/
def whenever (r : Role) (p : Option A → R → Bool) : RoleAssignment A R := ⟨r, p⟩

end RoleAssignment

/-- Gives the roles that an actor holds on an instance. -/
abbrev HeldRoles (A R : Type) := Option A → R → RoleSet

/-- The assignments that are in force. -/
abbrev RoleAssignments (A R : Type) := List (RoleAssignment A R)

namespace RoleAssignments

/-- The roles that are assigned at all, in order. -/
def roles (as : RoleAssignments A R) : List Role := as.map RoleAssignment.role

/-- The roles that an actor holds on an instance. -/
def held (as : RoleAssignments A R) : HeldRoles A R := fun actor subject =>
  SortedSet.ofList ((as.filter fun a => a.applies actor subject).map RoleAssignment.role)

theorem mem_held {as : RoleAssignments A R} {actor : Option A} {subject : R} {r : Role} :
    r ∈ held as actor subject ↔ ∃ a ∈ as, a.applies actor subject = true ∧ a.role = r := by
  simp [held, and_assoc]

/-- Assignments with the same members give the same roles. -/
theorem held_congr {as bs : RoleAssignments A R} (h : ∀ a, a ∈ as ↔ a ∈ bs) :
    held as = held bs := by
  funext actor subject
  exact SortedSet.ext_mem fun r => by simp only [mem_held, h]

/-- How assignments are shown: by their roles. -/
def shown (as : RoleAssignments A R) : String :=
  Text.shownRecord "RoleRules"
    [("roles", Text.shownList ((roles as).map fun r => "Role(" ++ Text.literal r ++ ")"))]

end RoleAssignments

end FieldAccess
