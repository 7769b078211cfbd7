/-
  Working out a declaration into an access table.

  1. **Check** — no rule may name an empty action or field, no role may be empty, and no mapping may
     list an empty field.

  2. **Public** — the rules of the public come first and make up the entry of the role `public`.

  3. **Roles** — then each role in order.  A rule that lists fields for an action also gives what the
     public has for that action; a finished table is taken as it is; a role that is granted everything
     gets the wildcard for every known action, in place of what it had.

  4. **Known actions** — the listed ones, or else the built-in ones and every action that a rule or
     mapping names.

  Core only.
-/
import FieldAccess.AccessError
import FieldAccess.Policy.AccessTable
import FieldAccess.Policy.Document

namespace FieldAccess

/-! ## Check -/

/-- Refuses a rule with an empty name. -/
def Rule.check (r : Rule) : Except Defect Unit :=
  if r.actions.any (·.name = "") then .error .emptyAction
  else if r.fields.hasEmptyName then .error .emptyField
  else .ok ()

/-- Refuses a role with an empty name, or with an empty field in its mapping. -/
def Grant.check (role : Role) (g : Grant) : Except Defect Unit :=
  if role = "" then .error .emptyRole
  else match g with
    | .table t =>
      if t.entries.any (·.2.hasEmptyName) then .error (.emptyFieldOf role) else .ok ()
    | _ => .ok ()

/-- Refuses a declaration with an empty name. -/
def Declaration.check (d : Declaration) : Except Defect Unit := do
  d.allPublicRules.forM Rule.check
  (d.grants.flatMap Grant.ruleList).forM Rule.check
  d.roles.entries.forM fun e => e.2.check e.1

/-! ## Working out -/

namespace ActionTable

/-- Adds fields to those of an action. -/
def add (t : ActionTable) (a : Action) (fields : List String) : ActionTable :=
  t.alter a fun old => OrderedSet.extend (old.getD ∅) fields

/-- The fields of an action. -/
def fieldsOf (t : ActionTable) (a : Action) : FieldSet := (t.get? a).getD ∅

theorem mem_keys_add {t : ActionTable} {a b : Action} {fields : List String} :
    b ∈ (t.add a fields).keys ↔ b = a ∨ b ∈ t.keys := OrderedMap.mem_keys_alter

/-- Adds what a rule gives, and with its fields those of the public. -/
def apply (publicFields : ActionTable) (t : ActionTable) : Rule → ActionTable
  | .everyField a => t.add a [wildcard]
  | .grant as fs => as.foldl (fun t a => t.add a (fs.toList ++ (publicFields.fieldsOf a).toList)) t

/-- Adds what a grant gives. -/
def applyGrant (known : List Action) (publicFields : ActionTable) (t : ActionTable) :
    Grant → ActionTable
  | .everything => known.foldl (fun t a => t.insert a FieldSet.all) t
  | .rules rs => rs.foldl (apply publicFields) t
  | .table u => u.entries.foldl (fun t e => t.add e.1 e.2.toList) t

end ActionTable

namespace Declaration

/-- The known actions. -/
def knownActions (d : Declaration) : List Action :=
  match d.actions with
  | some as => (OrderedSet.ofList as).toList
  | none =>
    (OrderedSet.ofList (Action.builtIns ++ d.allPublicRules.flatMap Rule.actions ++
      d.grants.flatMap Grant.actions)).toList

/-- What the public may do by its rules. -/
def publicTable (d : Declaration) : ActionTable := d.allPublicRules.foldl (ActionTable.apply ∅) ∅

/-- The entry of the public, which exists if it has any rule. -/
def publicEntries (d : Declaration) : OrderedMap Role ActionTable :=
  if d.allPublicRules.isEmpty then ∅
  else (∅ : OrderedMap Role ActionTable).insert Role.everyone d.publicTable

/-- Works in the grant of one role. -/
def addGrant (d : Declaration) (t : OrderedMap Role ActionTable) (e : Role × Grant) :
    OrderedMap Role ActionTable :=
  t.alter e.1 fun old => ActionTable.applyGrant d.knownActions d.publicTable (old.getD ∅) e.2

/-- Works out a declaration that was checked. -/
def compile (d : Declaration) : AccessTable := ⟨d.roles.entries.foldl d.addGrant d.publicEntries⟩

end Declaration

namespace AccessTable

/-- The table of a declaration. -/
def build (d : Declaration) : Except Defect AccessTable := do
  d.check
  return d.compile

/-- The table of a document. -/
def ofDocument (v : Json) : Except Defect AccessTable := do build (← Declaration.ofJson v)

/-- The table of a JSON text. -/
def parse (text : String) : Except AccessError AccessTable := do
  (build (← Declaration.parse text)).mapError .configuration

/-- The table of a list of steps. -/
def ofSteps (steps : List Declaration.Step) : Except Defect AccessTable :=
  build (Declaration.ofSteps steps)

end AccessTable

end FieldAccess
