/-
  JSON values, and what can be wrong with a JSON text.

  1. **Values** — members of an object are listed in order.  A value that was read never repeats a
     key; a value that is only written may.

  2. **Numbers** — an integer of 64 bits, signed or not, is kept exactly; every other number is a
     double.

  3. **Faults** — the causes for which a text is refused, each with its message.

  Core only.
-/
import FieldAccess.Decimal.Shortest
import FieldAccess.Text.Shown

namespace FieldAccess

/-! ## Values -/

/-- A JSON number. -/
inductive Json.Number where
  | integer (value : Int)
  | double (value : Float)
deriving Inhabited

/-- A JSON value. -/
inductive Json where
  | null
  | bool (value : Bool)
  | number (value : Json.Number)
  | string (value : String)
  | array (items : List Json)
  | object (members : List (String × Json))
deriving Inhabited

namespace Json

/-- Doubles are written positionally from `1e-5` up to `1e16`. -/
def doubleStyle : Decimal.Style := ⟨-5, 15⟩

/-- The text of a number: decimal digits for an integer, the shortest digits for a double. -/
def Number.chars : Number → List Char
  | integer i => (toString i).toList
  | double x => doubleStyle.floatText x

/-- The text of a number as a string. -/
def Number.text (n : Number) : String := String.ofList n.chars

/-! ## Faults -/

/-- What was found where a value of another kind was wanted. -/
inductive Found where
  | null
  | bool (value : Bool)
  | number (value : Number)
  | string (value : String)
  | list
  | object
deriving Inhabited

/-- How a found value is described. -/
def Found.describe : Found → String
  | null => "null"
  | bool b => "boolean `" ++ Text.shownBool b ++ "`"
  | number (.integer i) => "integer `" ++ Number.text (.integer i) ++ "`"
  | number (.double x) => "floating point `" ++ Number.text (.double x) ++ "`"
  | string s => "string " ++ Text.literal s
  | list => "sequence"
  | object => "map"

/-- Why a text is refused. -/
inductive Fault where
  /-- The text ends where a value should stand. -/
  | endInValue
  /-- The text ends inside a list. -/
  | endInList
  /-- The text ends inside an object. -/
  | endInObject
  /-- The text ends inside a string. -/
  | endInString
  /-- Something that starts no value. -/
  | valueExpected
  /-- A word that starts like `null`, `true` or `false` and goes on differently. -/
  | wordExpected
  | colonExpected
  | listSeparatorExpected
  | objectSeparatorExpected
  | keyNotString
  | trailingComma
  | trailingText
  | badNumber
  | numberTooLarge
  | badEscape
  /-- A leading surrogate that is followed by no further escape. -/
  | surrogateCut
  /-- A surrogate that has no partner. -/
  | surrogateAlone
  | controlCharacter
  | tooDeep
  /-- A well-formed value of another kind than the wanted one. -/
  | mismatch (found : Found) (wanted : String)
  | missingField (name : String)
  | repeatedField (name : String)
  /-- A list that has too few elements for the wanted record. -/
  | tooShort (length : Nat) (wanted : String)
  /-- A value of the right kind that the wanted type refuses, with its reason. -/
  | refused (reason : String)
deriving Inhabited

/-- The message of a fault. -/
def Fault.message : Fault → String
  | endInValue => "EOF while parsing a value"
  | endInList => "EOF while parsing a list"
  | endInObject => "EOF while parsing an object"
  | endInString => "EOF while parsing a string"
  | valueExpected => "expected value"
  | wordExpected => "expected ident"
  | colonExpected => "expected `:`"
  | listSeparatorExpected => "expected `,` or `]`"
  | objectSeparatorExpected => "expected `,` or `\x7d`"
  | keyNotString => "key must be a string"
  | trailingComma => "trailing comma"
  | trailingText => "trailing characters"
  | badNumber => "invalid number"
  | numberTooLarge => "number out of range"
  | badEscape => "invalid escape"
  | surrogateCut => "unexpected end of hex escape"
  | surrogateAlone => "lone leading surrogate in hex escape"
  | controlCharacter => "control character (\\u0000-\\u001F) found while parsing a string"
  | tooDeep => "recursion limit exceeded"
  | mismatch found wanted => "invalid type: " ++ found.describe ++ ", expected " ++ wanted
  | missingField name => "missing field `" ++ name ++ "`"
  | repeatedField name => "duplicate field `" ++ name ++ "`"
  | tooShort n wanted => "invalid length " ++ toString n ++ ", expected " ++ wanted
  | refused reason => reason

end Json

end FieldAccess
