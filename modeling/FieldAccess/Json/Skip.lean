/-
  Skipping a JSON value whose content does not matter.

  A skipped value is held to the grammar only: lists and objects may be nested without limit,
  surrogates need no partner, numbers have no range, and whatever is wrong with a numeral is an
  invalid number.  After a comma a value or a key must follow.

  Core only.
-/
import FieldAccess.Json.Numeral

namespace FieldAccess.Json.Reader

/-- Skips a numeral. -/
def skipNumeral : Reader Unit := fun cs =>
  match Numeral.scan cs with
  | .ok (_, rest) => .ok ((), rest)
  | .error _ => .error .badNumber

/-- Skips a string, after its opening quote; the code units of its escapes may be any. -/
def skipString : Reader Unit := do
  let _ ← stringChars (fun _ => pure '?') (← get)

/-- Skips the items that are left in a list, from an item on. -/
def skipItems (item : Reader Unit) : (turns : List Char) → Reader Unit
  | [] => fail .endInValue
  | _ :: turns => do
    item
    match ← peek with
    | none => fail .endInList
    | some ']' => advance
    | some ',' => do advance; skipItems item turns
    | some _ => fail .listSeparatorExpected

/-- Skips a key and the colon after it. -/
def skipKey : Reader Unit := do
  match ← peek with
  | none => fail .endInObject
  | some '"' => do advance; skipString; colon
  | some _ => fail .keyNotString

/-- Skips the members that are left in an object, from a key on. -/
def skipMembers (item : Reader Unit) : (turns : List Char) → Reader Unit
  | [] => fail .endInObject
  | _ :: turns => do
    skipKey
    item
    match ← peek with
    | none => fail .endInObject
    | some '\x7d' => advance
    | some ',' => do advance; skipMembers item turns
    | some _ => fail .objectSeparatorExpected

/-- Skips a list, after its opening bracket. -/
def skipList (item : Reader Unit) (turns : List Char) : Reader Unit := do
  match ← peek with
  | none => fail .endInList
  | some ']' => advance
  | some _ => skipItems item turns

/-- Skips an object, after its opening brace. -/
def skipObject (item : Reader Unit) (turns : List Char) : Reader Unit := do
  match ← peek with
  | none => fail .endInObject
  | some '\x7d' => advance
  | some _ => skipMembers item turns

/-- Skips a value; what is nested in it has one turn less. -/
def skipWithin : (turns : List Char) → Reader Unit
  | [] => fail .endInValue
  | _ :: turns => do
    match ← peek with
    | none => fail .endInValue
    | some c =>
      match c with
      | 'n' => word ['n', 'u', 'l', 'l']
      | 't' => word ['t', 'r', 'u', 'e']
      | 'f' => word ['f', 'a', 'l', 's', 'e']
      | '"' => do advance; skipString
      | '[' => do advance; skipList (skipWithin turns) turns
      | '\x7b' => do advance; skipObject (skipWithin turns) turns
      | _ => if c = '-' ∨ c.isDigit then skipNumeral else fail .valueExpected

/-- Skips a value. -/
def skip : Reader Unit := do skipWithin (← get)

end FieldAccess.Json.Reader
