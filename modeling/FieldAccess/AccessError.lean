/-
  What can go wrong, as causes.

  1. **Defects** — why a permission declaration is refused.

  2. **Field faults** — why a model refuses a value for one of its fields.

  3. **Access errors** — a defective configuration, a refused access, a field fault, a JSON fault.
     Each has a message, a code and a status.  A hidden refusal answers as if the field were absent:
     its code and status are those of a missing thing.

  Core only.
-/
import FieldAccess.Action
import FieldAccess.Role
import FieldAccess.FieldSet
import FieldAccess.Json.Printer

namespace FieldAccess

/-! ## Defects -/

/-- What a list of names holds. -/
inductive NameKind where
  | action
  | field
deriving DecidableEq, Inhabited

/-- The word for a kind of name. -/
def NameKind.word : NameKind → String
  | action => "action"
  | field => "field"

/-- Why a permission declaration is refused. -/
inductive Defect where
  | emptyAction
  | emptyField
  | emptyRole
  /-- A role's mapping lists a field without a name. -/
  | emptyFieldOf (role : Role)
  | notMapping
  /-- The entry of a built-in action is no list. -/
  | publicNotList (action : Action)
  /-- An item of the entry of a built-in action is neither a field nor a pair. -/
  | publicItem (action : Action) (item : Json)
  /-- A role is granted a word other than the wildcard. -/
  | roleWord (role : Role) (word : String)
  /-- An item of a role's rules is neither an action nor a pair. -/
  | roleRule (role : Role) (item : Json)
  | roleGrant (role : Role) (entry : Json)
  | notPair (owner : String) (item : Json)
  | notNameList (kind : NameKind) (owner : String) (value : Json)
  | notName (kind : NameKind) (owner : String) (item : Json)
  /-- A defect that someone else states. -/
  | stated (reason : String)
deriving Inhabited

/-- The wording of a defect. -/
def Defect.message : Defect → String
  | emptyAction => "action name must not be empty"
  | emptyField => "field name must not be empty"
  | emptyRole => "role name must not be empty"
  | emptyFieldOf role => "field name must not be empty (role '" ++ role ++ "')"
  | notMapping => "permissions must be a mapping of roles"
  | publicNotList a =>
    "public '" ++ a.name ++ "' permissions must be a list of fields or (actions, fields) pairs"
  | publicItem a item => "invalid public '" ++ a.name ++ "' entry: " ++ item.compact
  | roleWord role word =>
    "role '" ++ role ++ "' grant must be \"*\", a rule list or a mapping, got \"" ++ word ++ "\""
  | roleRule role item => "invalid rule for role '" ++ role ++ "': " ++ item.compact
  | roleGrant role entry => "invalid grant for role '" ++ role ++ "': " ++ entry.compact
  | notPair owner item =>
    "invalid permission shorthand for '" ++ owner ++
      "': expected a 2-element (actions, fields) pair, got " ++ item.compact
  | notNameList kind owner value =>
    "expected a list of " ++ kind.word ++ " names for '" ++ owner ++ "', got " ++ value.compact
  | notName kind owner item =>
    "expected a " ++ kind.word ++ " name for '" ++ owner ++ "', got " ++ item.compact
  | stated reason => reason

/-! ## Field faults -/

/-- Why a model refuses to read, write or clear a field. -/
inductive FieldFault where
  | noSuchField
  | required
  | stringExpected (got : Json)
  /-- A fault that someone else states. -/
  | stated (reason : String)
deriving Inhabited

/-- The wording of a field fault. -/
def FieldFault.message : FieldFault → String
  | noSuchField => "no such field"
  | required => "field is required"
  | stringExpected got => "expected a string, got " ++ got.compact
  | stated reason => reason

/-! ## Access errors -/

/-- A refused access: what was refused, and whether the refusal is hidden. -/
structure Denial where
  model : String
  action : Action
  field : String
  hidden : Bool
deriving DecidableEq, Inhabited

/-- What can go wrong. -/
inductive AccessError where
  | configuration (defect : Defect)
  | forbidden (denial : Denial)
  | field (model field : String) (fault : FieldFault)
  | json (fault : Json.Fault)
deriving Inhabited

namespace AccessError

/-- The message of an error. -/
def message : AccessError → String
  | configuration d => "invalid permission configuration: " ++ d.message
  | forbidden d =>
    "access denied: cannot " ++ d.action.name ++ " '" ++ d.field ++ "' on " ++ d.model
  | field model f fault => "field '" ++ f ++ "' on " ++ model ++ ": " ++ fault.message
  | json fault => "JSON error: " ++ fault.message

/-- The code of an error. -/
def code : AccessError → String
  | configuration _ => "CONFIGURATION_ERROR"
  | forbidden d => if d.hidden then "NOT_FOUND" else "FORBIDDEN"
  | field .. => "FIELD_ERROR"
  | json _ => "JSON_ERROR"

/-- The status of an error. -/
def status : AccessError → Nat
  | configuration _ => 500
  | forbidden d => if d.hidden then 404 else 403
  | field .. => 400
  | json _ => 500

/-- Whether an access was refused. -/
def isForbidden : AccessError → Bool
  | forbidden _ => true
  | _ => false

/-- The error beneath an error, as far as it has a message of its own. -/
def cause? : AccessError → Option String
  | json fault => some fault.message
  | _ => none

/-- A hidden refusal and an open one differ in code and status. -/
theorem status_forbidden (d : Denial) : (forbidden d).status = 404 ↔ d.hidden = true := by
  cases h : d.hidden <;> simp [status, h]

end AccessError

/-- Reads an action name. -/
def Action.read? (n : String) : Except Defect Action :=
  match Action.ofName? n with
  | some a => .ok a
  | none => .error .emptyAction

/-- Reads a field name. -/
def fieldName? (n : String) : Except Defect String :=
  if n = "" then .error .emptyField else .ok n

end FieldAccess
