/-
  Questions about access, and what is asked about.

  A request names the actor, who may be unknown, the action, the model instance and the field, which
  may be the wildcard.  An instance has a model name and the access table of its model.  An oracle
  answers requests; it depends on nothing but the request.

  Core only.
-/
import FieldAccess.Policy.AccessTable
import FieldAccess.Oracle.Verdict

namespace FieldAccess

/-- Things that belong to a model with an access table. -/
class Modelled (R : Type) where
  /-- The name of the model. -/
  modelName : R → String
  /-- The access table of the model. -/
  permissions : R → AccessTable

/-- One question about access. -/
structure Request (A R : Type) where
  /-- Who asks; nobody if the actor is anonymous. -/
  actor : Option A
  action : Action
  subject : R
  field : String

/-- Answers questions about access. -/
abbrev Oracle (A R : Type) := Request A R → Verdict

namespace Oracle

variable {A R : Type}

/-- Allows what a test accepts, in the name of the test. -/
def ofTest (name : String) (test : Request A R → Bool) : Oracle A R := fun q =>
  if test q then Verdict.allow ("allowed by " ++ name) else Verdict.deny ("denied by " ++ name)

/-- Whether an access is allowed. -/
def allows (o : Oracle A R) (q : Request A R) : Bool := (o q).allowed

end Oracle

end FieldAccess
