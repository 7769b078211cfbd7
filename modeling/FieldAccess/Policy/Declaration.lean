/-
  Permission declarations: what an author writes down, before it is worked out.

  1. **Rules** — a rule gives one action on every field, or some actions on some fields.

  2. **Grants** — a role is granted everything, a list of rules, or a finished table of actions.

  3. **Declarations** — the rules of the public, the grants of the roles in order, and optionally the
     list of all actions there are.

  4. **Drafts** — a declaration can also be put together step by step.

  Core only.
-/
import FieldAccess.Action
import FieldAccess.Role
import FieldAccess.FieldSet
import FieldAccess.Collections.OrderedMap

namespace FieldAccess

/-- The fields granted for each action. -/
abbrev ActionTable := OrderedMap Action FieldSet

/-! ## Rules and grants -/

/-- One thing that is granted. -/
inductive Rule where
  /-- An action on every field. -/
  | everyField (action : Action)
  /-- Some actions on some fields. -/
  | grant (actions : List Action) (fields : FieldSet)
deriving DecidableEq, Inhabited

namespace Rule

/-- The actions that a rule names. -/
def actions : Rule → List Action
  | everyField a => [a]
  | grant as _ => as

/-- The fields that a rule lists. -/
def fields : Rule → FieldSet
  | everyField _ => ∅
  | grant _ fs => fs

/-- A rule for one action. -/
def single (a : Action) (fields : List String) : Rule := grant [a] (OrderedSet.ofList fields)

end Rule

/-- What a role is granted. -/
inductive Grant where
  /-- Every known action on every field. -/
  | everything
  | rules (rules : List Rule)
  /-- A finished table, taken as it is. -/
  | table (entries : ActionTable)
deriving DecidableEq, Inhabited

namespace Grant

/-- The rules of a grant. -/
def ruleList : Grant → List Rule
  | rules rs => rs
  | _ => []

/-- The actions that a grant names. -/
def actions : Grant → List Action
  | everything => []
  | rules rs => rs.flatMap Rule.actions
  | table t => t.keys

end Grant

/-! ## Declarations -/

/-- A permission declaration for one model. -/
structure Declaration where
  /-- All actions there are, if they are listed. -/
  actions : Option (List Action) := none
  /-- Rules for the public, under the action with which they were declared. -/
  publicRules : OrderedMap Action (List Rule) := ∅
  /-- Grants of the roles, in order. -/
  roles : OrderedMap Role Grant := ∅
deriving DecidableEq, Inhabited

namespace Declaration

/-- All rules for the public, in order. -/
def allPublicRules (d : Declaration) : List Rule := d.publicRules.entries.flatMap Prod.snd

/-- All grants, in order. -/
def grants (d : Declaration) : List Grant := d.roles.entries.map Prod.snd

/-! ## Drafts -/

/-- One step in putting a declaration together. -/
inductive Step where
  /-- Grant an action on some fields to everyone. -/
  | grantPublic (action : Action) (fields : List String)
  /-- Append rules to those of a role. -/
  | appendRules (role : Role) (rules : List Rule)
  /-- Grant everything to a role. -/
  | grantEverything (role : Role)
  /-- List all actions there are. -/
  | listActions (actions : List Action)
deriving DecidableEq, Inhabited

/-- Appends rules to a grant; a grant that is no list of rules stays as it is. -/
def mergeRules (rules : List Rule) : Option Grant → Grant
  | none => .rules rules
  | some (.rules rs) => .rules (rs ++ rules)
  | some g => g

/-- Carries out one step. -/
def step (d : Declaration) : Step → Declaration
  | .grantPublic a fields =>
    { d with publicRules := d.publicRules.alter a fun rs => rs.getD [] ++ [Rule.single a fields] }
  | .appendRules role rules => { d with roles := d.roles.alter role (mergeRules rules) }
  | .grantEverything role => { d with roles := d.roles.insert role .everything }
  | .listActions as => { d with actions := some as }

/-- The declaration that a list of steps puts together. -/
def ofSteps (steps : List Step) : Declaration := steps.foldl step {}

end Declaration

end FieldAccess
