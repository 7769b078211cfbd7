/-
  Permission documents: declarations written in JSON.

  1. **Names and lists** — a list of names is checked for its shape first and for empty names after
     that; a pair has actions on its left and fields on its right, each a name or a list of names.

  2. **Entries** — the key `actions` lists the actions there are.  The key of a built-in action lists
     fields and pairs for the public; its plain fields are gathered into one rule, which comes first.
     Any other key is a role, granted `*`, a list of actions and pairs, or a mapping of actions.

  3. **Order** — entries are read in the order of the document, and the first defect counts.

  Core only.
-/
import FieldAccess.AccessError
import FieldAccess.Policy.Declaration
import FieldAccess.Json.Parser

namespace FieldAccess

namespace Declaration

/-! ## Names and lists -/

/-- One name in a list. -/
def nameItem (kind : NameKind) (owner : String) : Json → Except Defect String
  | .string s => .ok s
  | item => .error (.notName kind owner item)

/-- A list of names. -/
def nameList (kind : NameKind) (owner : String) : Json → Except Defect (List String)
  | .array items => items.mapM (nameItem kind owner)
  | value => .error (.notNameList kind owner value)

/-- A list of actions. -/
def actionList (owner : String) (v : Json) : Except Defect (List Action) := do
  (← nameList .action owner v).mapM Action.read?

/-- A list of fields; repeated ones count once. -/
def fieldList (owner : String) (v : Json) : Except Defect FieldSet := do
  return OrderedSet.ofList (← (← nameList .field owner v).mapM fieldName?)

/-- The left side of a pair: an action or a list of actions. -/
def pairActions (owner : String) : Json → Except Defect (List Action)
  | .string n => return [← Action.read? n]
  | v => actionList owner v

/-- The right side of a pair: a field or a list of fields. -/
def pairFields (owner : String) : Json → Except Defect FieldSet
  | .string n => return OrderedSet.singleton (← fieldName? n)
  | v => fieldList owner v

/-- A pair of actions and fields. -/
def pair (owner : String) : Json → Except Defect Rule
  | .array [as, fs] => return .grant (← pairActions owner as) (← pairFields owner fs)
  | item => .error (.notPair owner item)

/-! ## Entries -/

/-- An item in the entry of a built-in action: a plain field or a rule. -/
def publicItem (a : Action) : Json → Except Defect (String ⊕ Rule)
  | .string n => return .inl (← fieldName? n)
  | .array items => return .inr (← pair a.name (.array items))
  | item => .error (.publicItem a item)

/-- The rules in the entry of a built-in action.  An entry without pairs is one rule, even if it
lists no field. -/
def gather (a : Action) (parts : List (String ⊕ Rule)) : List Rule :=
  let plain := parts.filterMap Sum.getLeft?
  let rules := parts.filterMap Sum.getRight?
  if plain.isEmpty && !rules.isEmpty then rules else Rule.single a plain :: rules

/-- The entry of a built-in action. -/
def publicEntry (a : Action) : Json → Except Defect (List Rule)
  | .array items => return gather a (← items.mapM (publicItem a))
  | _ => .error (.publicNotList a)

/-- An item of a role's rules. -/
def roleItem (role : Role) : Json → Except Defect Rule
  | .string n => return .everyField (← Action.read? n)
  | .array items => pair role (.array items)
  | item => .error (.roleRule role item)

/-- A member of a role's mapping. -/
def tableMember (role : Role) (t : ActionTable) (m : String × Json) : Except Defect ActionTable := do
  let fields ← fieldList role m.2
  return t.insert (← Action.read? m.1) fields

/-- The entry of a role. -/
def roleEntry (role : Role) : Json → Except Defect Grant
  | .string s => if s = wildcard then .ok .everything else .error (.roleWord role s)
  | .array items => return .rules (← items.mapM (roleItem role))
  | .object members => return .table (← members.foldlM (tableMember role) ∅)
  | entry => .error (.roleGrant role entry)

/-! ## Documents -/

/-- The key that lists the actions there are. -/
def actionsKey : String := "actions"

/-- Takes in one member of a document. -/
def member (d : Declaration) (m : String × Json) : Except Defect Declaration :=
  if m.1 = actionsKey then
    return { d with actions := some (← actionList actionsKey m.2) }
  else do
    let a ← Action.read? m.1
    if a.isBuiltIn then
      return { d with publicRules := d.publicRules.insert a (← publicEntry a m.2) }
    else
      return { d with roles := d.roles.insert m.1 (← roleEntry m.1 m.2) }

/-- The declaration that a document states. -/
def ofJson : Json → Except Defect Declaration
  | .object members => members.foldlM member {}
  | _ => .error .notMapping

/-- The declaration that a JSON text states. -/
def parse (text : String) : Except AccessError Declaration := do
  let v ← (Json.parse text).mapError .json
  (ofJson v).mapError .configuration

end Declaration

end FieldAccess
