/-
  Field sets: the fields that a role may perform an action on.

  1. **The wildcard** — the field name `*` stands for every field of the model and for the row itself.
     Holding it permits every field; permission for `*` needs `*` itself, and no set of concrete fields
     adds up to it.

  2. **Changes** — a set is empty, holds the wildcard, or is collected from a list; then fields are
     inserted and removed, which tells whether there was anything to do.

  Core only.
-/
import FieldAccess.Collections.OrderedSet

namespace FieldAccess

/-- The field name that means every field. -/
def wildcard : String := "*"

/-- Whether a field name means every field. -/
def isWildcard (field : String) : Bool := field = wildcard

/-- The fields granted for one role and action, in the order in which they were granted. -/
abbrev FieldSet := OrderedSet String

namespace FieldSet

/-- The set that holds the wildcard alone. -/
def all : FieldSet := OrderedSet.singleton wildcard

/-- Whether the set holds the wildcard. -/
def hasWildcard (fs : FieldSet) : Bool := fs.contains wildcard

/-- Whether the set grants a field: by the wildcard, or by its name, which for the wildcard is not
enough. -/
def permits (fs : FieldSet) (field : String) : Bool :=
  fs.hasWildcard || (!isWildcard field && fs.contains field)

/-- Some field of the set has the empty name. -/
def hasEmptyName (fs : FieldSet) : Bool := fs.contains ""

theorem hasWildcard_iff {fs : FieldSet} : fs.hasWildcard = true ↔ wildcard ∈ fs := by
  simp [hasWildcard]

theorem isWildcard_iff {field : String} : isWildcard field = true ↔ field = wildcard :=
  decide_eq_true_iff

/-- A set that holds the wildcard grants it anyway, so that no name needs an exception. -/
theorem permits_iff {fs : FieldSet} {field : String} :
    fs.permits field = true ↔ wildcard ∈ fs ∨ field ∈ fs := by
  unfold permits
  rw [Bool.or_eq_true, hasWildcard_iff, Bool.and_eq_true, OrderedSet.contains_iff, Bool.not_eq_true',
    Bool.eq_false_iff, Ne, isWildcard_iff]
  constructor
  · rintro (h | ⟨-, h⟩)
    · exact Or.inl h
    · exact Or.inr h
  · rintro (h | h)
    · exact Or.inl h
    · by_cases hw : field = wildcard
      · exact Or.inl (hw ▸ h)
      · exact Or.inr ⟨hw, h⟩

theorem permits_wildcard_iff {fs : FieldSet} : fs.permits wildcard = true ↔ wildcard ∈ fs := by
  simp [permits_iff]

theorem permits_all (field : String) : all.permits field = true := by
  simp [permits_iff, all]

theorem permits_extend {fs : FieldSet} {gs : List String} {field : String} :
    permits (fs.extend gs) field = true ↔
      fs.permits field = true ∨ wildcard ∈ gs ∨ field ∈ gs := by
  simp only [permits_iff, OrderedSet.mem_extend]
  constructor
  · rintro ((h | h) | (h | h)) <;> simp [h]
  · rintro ((h | h) | (h | h)) <;> simp [h]

/-! ## Changing a set -/

/-- What a set is made from. -/
inductive Start where
  | empty
  | all
  /-- The fields of a list, inserted in their order. -/
  | collected (fields : List String)
deriving DecidableEq, Inhabited

/-- The set that is made. -/
def ofStart : Start → FieldSet
  | .empty => ∅
  | .all => all
  | .collected fields => OrderedSet.ofList fields

/-- What is done to a set. -/
inductive Change where
  | insert (field : String)
  | remove (field : String)
  /-- The fields of another set are inserted, in their order. -/
  | extend (other : FieldSet)
deriving DecidableEq, Inhabited

/-- Does one thing to a set.  Inserting tells whether the field was absent, removing whether it was
present. -/
def change (fs : FieldSet) : Change → FieldSet × Option Bool
  | .insert f => (fs.insert f, some (!fs.contains f))
  | .remove f => (fs.erase f, some (fs.contains f))
  | .extend other => (fs.extend other.toList, none)

/-- Does some things to a set, one after the other. -/
def changes (fs : FieldSet) (cs : List Change) : FieldSet := cs.foldl (fun fs c => (fs.change c).1) fs

end FieldSet

end FieldAccess
