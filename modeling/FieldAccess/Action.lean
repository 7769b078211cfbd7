/-
  Actions: what an actor may want to do with a field.

  1. **Names** — four built-in actions and any number of custom ones.  `Action.ofName?` reads a name
     and refuses the empty one; a custom action may carry any name when it is built directly, also a
     built-in one, and is then distinct from the built-in action.

  2. **Order** — create, read, update, delete, then the custom actions by name.

  Core only.
-/

namespace FieldAccess

open Std

/-- Something that can be done with a field. -/
inductive Action where
  | create
  | read
  | update
  | delete
  | custom (name : String)
deriving DecidableEq, Inhabited

namespace Action

/-! ## Names -/

/-- The name of an action. -/
def name : Action → String
  | create => "create"
  | read => "read"
  | update => "update"
  | delete => "delete"
  | custom n => n

/-- The action that a name stands for, a custom one unless the name is built in. -/
def ofName (n : String) : Action :=
  if n = "create" then create
  else if n = "read" then read
  else if n = "update" then update
  else if n = "delete" then delete
  else custom n

/-- Reads an action name; the empty name stands for nothing. -/
def ofName? (n : String) : Option Action := if n = "" then none else some (ofName n)

/-- The built-in actions, in order. -/
def builtIns : List Action := [create, read, update, delete]

/-- Whether an action is built in. -/
def isBuiltIn : Action → Bool
  | custom _ => false
  | _ => true

@[simp] theorem name_ofName (n : String) : (ofName n).name = n := by
  unfold ofName
  split
  · next h => exact h.symm
  · split
    · next h => exact h.symm
    · split
      · next h => exact h.symm
      · split
        · next h => exact h.symm
        · rfl

theorem mem_builtIns {a : Action} : a ∈ builtIns ↔ a.isBuiltIn = true := by
  cases a <;> simp [builtIns, isBuiltIn]

theorem ofName_name {a : Action} (h : a.isBuiltIn = true) : ofName a.name = a := by
  cases a <;> first | rfl | simp [isBuiltIn] at h

/-- An action is the reading of its own name. -/
def Plain (a : Action) : Prop := ofName? a.name = some a

instance (a : Action) : Decidable a.Plain := inferInstanceAs (Decidable (ofName? a.name = some a))

theorem ofName?_eq_some {n : String} {a : Action} (h : ofName? n = some a) :
    n ≠ "" ∧ a.name = n ∧ a.Plain := by
  unfold ofName? at h
  split at h
  · simp at h
  · next hn =>
    simp only [Option.some.injEq] at h
    subst h
    simp [hn, Plain, ofName?]

/-! ## Order -/

/-- The place of an action's kind. -/
def rank : Action → Nat
  | create => 0
  | read => 1
  | update => 2
  | delete => 3
  | custom _ => 4

/-- Kinds first, then names. -/
instance : Ord Action := ⟨compareLex (compareOn rank) (compareOn name)⟩

instance : TransOrd Action :=
  inferInstanceAs (TransCmp (compareLex (compareOn rank) (compareOn name)))

theorem eq_of_rank_name {a b : Action} (hr : a.rank = b.rank) (hn : a.name = b.name) : a = b := by
  cases a <;> cases b <;> simp_all [rank, name]

instance : LawfulEqOrd Action where
  eq_of_compare {a b} h := by
    have h : (compare a.rank b.rank).then (compare a.name b.name) = .eq := h
    rw [Ordering.then_eq_eq] at h
    exact eq_of_rank_name (LawfulEqCmp.eq_of_compare h.1) (LawfulEqCmp.eq_of_compare h.2)

example : compare (custom "read") read = .gt := by decide
example : compare delete create = .gt := by decide

end Action

end FieldAccess
