/-
  Reading JSON text straight into a wanted type.

  1. **Kinds** — a value of another kind than the wanted one is a mismatch that names both.  A word, a
     number or a string is read before it is refused; of a list or an object only the bracket is seen.

  2. **Records** — an object gives the fields by name, each at most once, and other members are
     skipped; a list gives them in the order of their declaration.

  Core only.
-/
import FieldAccess.Collections.OrderedMap
import FieldAccess.Json.Skip

namespace FieldAccess.Json.Reader

variable {α β : Type}

/-! ## Kinds -/

/-- Reads what is found where something else was wanted. -/
def found : Reader Found := do
  match ← peek with
  | none => fail .endInValue
  | some c =>
    match c with
    | 'n' => do word ['n', 'u', 'l', 'l']; return .null
    | 't' => do word ['t', 'r', 'u', 'e']; return .bool true
    | 'f' => do word ['f', 'a', 'l', 's', 'e']; return .bool false
    | '"' => do advance; return .string (← stringBody)
    | '[' => return .list
    | '\x7b' => return .object
    | _ =>
      if c = '-' ∨ c.isDigit then return .number (← Numeral.read)
      else fail .valueExpected

/-- Refuses the next value, which is not of the wanted kind. -/
def mismatch (wanted : String) : Reader α := do
  let f ← found
  fail (.mismatch f wanted)

/-- A string. -/
def string : Reader String := do
  match ← peek with
  | some '"' => do advance; stringBody
  | _ => mismatch "a string"

/-- A truth value. -/
def bool : Reader Bool := do
  match ← peek with
  | some 't' => do word ['t', 'r', 'u', 'e']; return true
  | some 'f' => do word ['f', 'a', 'l', 's', 'e']; return false
  | _ => mismatch "a boolean"

/-- A value or `null`. -/
def optional (r : Reader α) : Reader (Option α) := do
  match ← peek with
  | some 'n' => do word ['n', 'u', 'l', 'l']; return none
  | _ => return some (← r)

/-- A list of items. -/
def list (wanted : String) (item : Reader α) : Reader (List α) := do
  match ← peek with
  | some '[' => do advance; listBody item
  | _ => mismatch wanted

/-- An object whose members are assigned one after the other. -/
def map {κ : Type} [DecidableEq κ] (wanted : String) (ofKey : String → Reader κ)
    (item : Reader α) : Reader (OrderedMap κ α) := do
  match ← peek with
  | some '\x7b' => do
    advance
    objectBody (fun m k => do
      let k ← ofKey k
      colon
      return m.insert k (← item)) ∅
  | _ => mismatch wanted

/-! ## Records -/

/-- A field of a record under construction. -/
structure Slot (β : Type) where
  name : String
  /-- Whether the field was already read. -/
  given : β → Bool
  /-- Reads the field. -/
  fill : β → Reader β

/-- How a record is read. -/
structure Fields (β : Type) where
  /-- What is wanted, for messages. -/
  wanted : String
  /-- The record before any field is read. -/
  start : β
  /-- The fields, in the order of their declaration. -/
  slots : List (Slot β)

/-- Reads one member of an object into a record; a member of another name is skipped. -/
def Fields.member (fs : Fields β) (acc : β) (name : String) : Reader β :=
  match fs.slots.find? (·.name = name) with
  | none => do
    colon
    skip
    return acc
  | some slot =>
    if slot.given acc then fail (.repeatedField name)
    else do
      colon
      slot.fill acc

/-- Reads the fields that a list gives in order; counts how many there were. -/
def Fields.elements : List (Slot β) → Nat → β → Reader (β × Nat)
  | [], n, acc => return (acc, n)
  | slot :: slots, n, acc => do
    if ← listGoesOn (n == 0) then
      let acc ← slot.fill acc
      Fields.elements slots (n + 1) acc
    else return (acc, n)

/-- Reads a record.  `ofList` finishes it from the fields that stood in a list and their number,
`ofObject` from the fields that stood in an object. -/
def Fields.read (fs : Fields β) (ofList : β × Nat → Reader α) (ofObject : β → Reader α) :
    Reader α := do
  match ← peek with
  | some '[' => do
    advance
    let r ← Fields.elements fs.slots 0 fs.start
    let a ← ofList r
    closeList
    return a
  | some '\x7b' => do
    advance
    let acc ← objectBody fs.member fs.start
    ofObject acc
  | _ => mismatch fs.wanted

end FieldAccess.Json.Reader
