/-
  Viewers: actors with an identity and perhaps administrative power.

  A condition says when a viewer holds a role on an instance, and criteria decide requests without any
  table.

  Core only.
-/
import FieldAccess.Guard.Resource
import FieldAccess.Oracle.RoleAssignment

namespace FieldAccess

/-- Someone who acts. -/
structure Viewer where
  id : String
  admin : Bool := false
deriving DecidableEq, Inhabited

/-! ## Conditions for roles -/

/-- A condition on an actor, who may be unknown, and an instance. -/
inductive Condition where
  | always
  | never
  | anonymous
  | admin
  /-- The actor with this identity. -/
  | id (id : String)
  /-- The actor whose identity the instance names in this field. -/
  | owner (field : String)
deriving DecidableEq, Inhabited

namespace Condition

variable {R : Type} [Resource R]

/-- Whether a field of an instance names a viewer. -/
def names (subject : R) (field : String) (v : Viewer) : Bool :=
  match Resource.readField subject field with
  | some (.string s) => s = v.id
  | _ => false

/-- Whether a condition is met. -/
def holds (c : Condition) (actor : Option Viewer) (subject : R) : Bool :=
  match c with
  | always => true
  | never => false
  | anonymous => actor.isNone
  | admin => actor.any Viewer.admin
  | id i => actor.any fun v => v.id = i
  | owner field => actor.any (names subject field)

end Condition

/-! ## Criteria for requests -/

/-- Criteria for a request; one that is left out is met. -/
structure Criteria where
  name : String
  actions : Option (List Action) := none
  fields : Option (List String) := none
  authenticated : Option Bool := none
deriving DecidableEq, Inhabited

namespace Criteria

variable {R : Type}

/-- Whether a request meets all criteria. -/
def accepts (c : Criteria) (q : Request Viewer R) : Bool :=
  c.actions.all (·.contains q.action) && c.fields.all (·.contains q.field) &&
    c.authenticated.all (· == q.actor.isSome)

/-- The oracle that decides by the criteria. -/
def oracle (c : Criteria) : Oracle Viewer R := Oracle.ofTest c.name c.accepts

end Criteria

end FieldAccess
