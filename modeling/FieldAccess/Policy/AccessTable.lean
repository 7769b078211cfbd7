/-
  Access tables: which role may do what with which field.

  1. **View** — a table lists its roles, a role its actions, an action its fields, each in the order
     in which they came.  `authorizedFields` reads one entry; an absent entry grants nothing.

  2. **Questions** — `permits` asks for one field; `actions` gathers the actions of all roles,
     sorted.

  3. **Comparison** — `sameAs` ignores the order of roles, actions and fields.

  Core only.
-/
import FieldAccess.Policy.Declaration

namespace FieldAccess

/-- For each role the actions it may perform, and on which fields. -/
structure AccessTable where
  roles : OrderedMap Role ActionTable
deriving DecidableEq

namespace AccessTable

/-- The table that names no role. -/
def empty : AccessTable := ⟨∅⟩

instance : EmptyCollection AccessTable := ⟨empty⟩
instance : Inhabited AccessTable := ⟨empty⟩

/-! ## Questions -/

/-- The roles, in order. -/
def roleNames (t : AccessTable) : List Role := t.roles.keys

/-- Whether the table names a role. -/
def hasRole (t : AccessTable) (r : Role) : Bool := t.roles.contains r

/-- The actions of a role. -/
def actionsFor (t : AccessTable) (r : Role) : ActionTable := (t.roles.get? r).getD ∅

/-- The fields on which a role may perform an action. -/
def authorizedFields (t : AccessTable) (r : Role) (a : Action) : FieldSet :=
  ((t.actionsFor r).get? a).getD ∅

/-- Whether a role may perform an action on a field. -/
def permits (t : AccessTable) (r : Role) (a : Action) (field : String) : Bool :=
  (t.authorizedFields r a).permits field

/-- The actions that some role has an entry for, in order. -/
def actions (t : AccessTable) : List Action :=
  (SortedSet.ofList (t.roles.entries.flatMap fun e => e.2.keys)).toList

/-- Whether the table names no role. -/
def isEmpty (t : AccessTable) : Bool := t.roles.isEmpty

/-- Whether two tables grant the same entries, in whatever order. -/
def sameAs (t u : AccessTable) : Bool :=
  t.roles.agrees (OrderedMap.agrees OrderedSet.sameMembers) u.roles

/-! ## Small facts -/

theorem permits_iff {t : AccessTable} {r : Role} {a : Action} {field : String} :
    t.permits r a field = true ↔
      wildcard ∈ t.authorizedFields r a ∨ field ∈ t.authorizedFields r a := FieldSet.permits_iff

theorem mem_actions {t : AccessTable} {a : Action} :
    a ∈ t.actions ↔ ∃ e ∈ t.roles.entries, a ∈ e.2.keys := by
  simp [actions]

/-- An action is among those of a role iff an entry of the role holds it. -/
theorem mem_keys_actionsFor {t : AccessTable} {r : Role} {a : Action} :
    a ∈ (t.actionsFor r).keys ↔ ∃ u, (r, u) ∈ t.roles.entries ∧ a ∈ u.keys := by
  unfold actionsFor
  simp only [← OrderedMap.get?_eq_some_iff]
  cases t.roles.get? r with
  | none => simp
  | some u => simp

/-- A field is authorized iff the entry of the role and the action lists it. -/
theorem mem_authorizedFields {t : AccessTable} {r : Role} {a : Action} {field : String} :
    field ∈ t.authorizedFields r a ↔
      ∃ u fs, (r, u) ∈ t.roles.entries ∧ (a, fs) ∈ u.entries ∧ field ∈ fs := by
  unfold authorizedFields actionsFor
  simp only [← OrderedMap.get?_eq_some_iff]
  cases t.roles.get? r with
  | none => simp
  | some u =>
    rw [Option.getD_some]
    cases hfs : u.get? a <;> simp [hfs]

/-- The actions of a table are those for which some role has an entry. -/
theorem mem_actions_iff {t : AccessTable} {a : Action} :
    a ∈ t.actions ↔ ∃ r, a ∈ (t.actionsFor r).keys := by
  rw [mem_actions]
  simp only [mem_keys_actionsFor, Prod.exists]

end AccessTable

end FieldAccess
