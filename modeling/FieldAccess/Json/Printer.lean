/-
  Printing a JSON value.

  1. **Strings** — quotes, backslashes and control characters are escaped and nothing else.

  2. **Compact text** — no blanks at all.

  3. **Pretty text** — one item or member a line, two spaces of indentation a level; an empty list or
     object stays on its line.

  Core only.
-/
import FieldAccess.Json.Basic

namespace FieldAccess.Json

/-! ## Strings -/

/-- A control character as an escape of four hexadecimal digits. -/
def controlEscape (c : Char) : List Char :=
  ['\\', 'u', '0', '0', Nat.digitChar (c.toNat / 16), Nat.digitChar (c.toNat % 16)]

/-- How a string shows one character. -/
def stringChar (c : Char) : List Char :=
  if c = '"' then ['\\', '"']
  else if c = '\\' then ['\\', '\\']
  else if c = '\x08' then ['\\', 'b']
  else if c = '\x0c' then ['\\', 'f']
  else if c = '\n' then ['\\', 'n']
  else if c = '\r' then ['\\', 'r']
  else if c = '\t' then ['\\', 't']
  else if c.toNat < 0x20 then controlEscape c
  else [c]

/-- A string between quotes. -/
def stringChars (s : String) : List Char := ['"'] ++ s.toList.flatMap stringChar ++ ['"']

/-- The text of a truth value. -/
def boolChars (b : Bool) : List Char := if b then ['t', 'r', 'u', 'e'] else ['f', 'a', 'l', 's', 'e']

/-! ## Compact text -/

mutual

/-- The characters of a value, without blanks. -/
def chars : Json → List Char
  | .null => ['n', 'u', 'l', 'l']
  | .bool b => boolChars b
  | .number n => n.chars
  | .string s => stringChars s
  | .array items => ['['] ++ itemChars items ++ [']']
  | .object members => ['\x7b'] ++ memberChars members ++ ['\x7d']

/-- Items with commas between them. -/
def itemChars : List Json → List Char
  | [] => []
  | v :: vs => chars v ++ moreItemChars vs

/-- Items with a comma before each. -/
def moreItemChars : List Json → List Char
  | [] => []
  | v :: vs => [','] ++ chars v ++ moreItemChars vs

/-- Members with commas between them. -/
def memberChars : List (String × Json) → List Char
  | [] => []
  | (k, v) :: ms => stringChars k ++ [':'] ++ chars v ++ moreMemberChars ms

/-- Members with a comma before each. -/
def moreMemberChars : List (String × Json) → List Char
  | [] => []
  | (k, v) :: ms => [','] ++ stringChars k ++ [':'] ++ chars v ++ moreMemberChars ms

end

/-- The compact text of a value. -/
def compact (v : Json) : String := String.ofList v.chars

/-! ## Pretty text -/

/-- The start of a line at a level of nesting. -/
def newline (level : Nat) : List Char := '\n' :: List.replicate (2 * level) ' '

mutual

/-- The characters of a value that starts at a level of nesting. -/
def prettyChars (level : Nat) : Json → List Char
  | .null => ['n', 'u', 'l', 'l']
  | .bool b => boolChars b
  | .number n => n.chars
  | .string s => stringChars s
  | .array [] => ['[', ']']
  | .array (v :: vs) =>
    ['['] ++ newline (level + 1) ++ prettyChars (level + 1) v ++ prettyItems (level + 1) vs ++
      newline level ++ [']']
  | .object [] => ['\x7b', '\x7d']
  | .object ((k, v) :: ms) =>
    ['\x7b'] ++ newline (level + 1) ++ stringChars k ++ [':', ' '] ++ prettyChars (level + 1) v ++
      prettyMembers (level + 1) ms ++ newline level ++ ['\x7d']

/-- Items with a comma before each, one a line. -/
def prettyItems (level : Nat) : List Json → List Char
  | [] => []
  | v :: vs => [','] ++ newline level ++ prettyChars level v ++ prettyItems level vs

/-- Members with a comma before each, one a line. -/
def prettyMembers (level : Nat) : List (String × Json) → List Char
  | [] => []
  | (k, v) :: ms =>
    [','] ++ newline level ++ stringChars k ++ [':', ' '] ++ prettyChars level v ++
      prettyMembers level ms

end

/-- The pretty text of a value. -/
def pretty (v : Json) : String := String.ofList (v.prettyChars 0)

end FieldAccess.Json
