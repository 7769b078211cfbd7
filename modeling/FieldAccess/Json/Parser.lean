/-
  Parsing a JSON text into a value.

  1. **Nesting** — a value may be nested 127 lists or objects deep; the reader recurses on what is
     left of that depth.

  2. **Repeated keys** — a key that comes again keeps its first place and takes its last value.

  Core only.
-/
import FieldAccess.Collections.OrderedMap
import FieldAccess.Json.Numeral

namespace FieldAccess.Json

namespace Reader

/-! ## Values -/

/-- Reads a value.  The readers of lists and objects are given by `nested`, which is missing where
nothing more may be nested. -/
def valueWith (nested : Option (Reader Json)) : Reader Json := do
  match ← peek with
  | none => fail .endInValue
  | some c =>
    match c with
    | 'n' => do word ['n', 'u', 'l', 'l']; return .null
    | 't' => do word ['t', 'r', 'u', 'e']; return .bool true
    | 'f' => do word ['f', 'a', 'l', 's', 'e']; return .bool false
    | '"' => do advance; return .string (← stringBody)
    | '[' => do
      match nested with
      | none => fail .tooDeep
      | some inner => advance; return .array (← listBody inner)
    | '\x7b' => do
      match nested with
      | none => fail .tooDeep
      | some inner =>
        advance
        return .object (← objectBody (memberWith inner) [])
    | _ => do
      if c = '-' ∨ c.isDigit then return .number (← Numeral.read)
      else fail .valueExpected
where
  /-- Reads the value of a member and assigns it to its key. -/
  memberWith (inner : Reader Json) (ms : List (String × Json)) (k : String) :
      Reader (List (String × Json)) := do
    colon
    return Entries.put k (← inner) ms

/-- Reads a value in which lists and objects are nested at most `depth` deep. -/
def value : Nat → Reader Json
  | 0 => valueWith none
  | depth + 1 => valueWith (some (value depth))

/-- How deep lists and objects may be nested. -/
def maxDepth : Nat := 127

end Reader

/-- Parses a JSON text. -/
def parse (text : String) : Except Fault Json := (Reader.value Reader.maxDepth).run text

end FieldAccess.Json
