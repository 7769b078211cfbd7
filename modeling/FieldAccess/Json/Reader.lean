/-
  Reading JSON text: the parts that every reader is made of.

  1. **Readers** — a reader takes the characters that are left and gives a value and the rest, or a
     fault.

  2. **Words, strings, lists and objects** — the lists and objects are generic in the reader of their
     items.  `listGoesOn` and `objectGoesOn` decide whether another item follows; the closing bracket
     is checked by `closeList` and `closeObject`.

  3. **Turns** — a loop over characters, items or members takes at least one character a turn, so the
     characters that are left when it starts bound its turns.  A loop that has used them up stands at
     the end of the text and answers what it would answer there.

  Core only.
-/
import FieldAccess.Json.Basic

namespace FieldAccess.Json

/-- Takes characters from the front of a text. -/
abbrev Reader (α : Type) := StateT (List Char) (Except Fault) α

namespace Reader

variable {α β : Type}

/-! ## Characters and words -/

/-- Gives up. -/
def fail (f : Fault) : Reader α := throw f

/-- Whether a character may stand between the parts of a text. -/
def isBlank (c : Char) : Bool := c = ' ' || c = '\t' || c = '\n' || c = '\r'

/-- Skips blanks and shows the next character without taking it. -/
def peek : Reader (Option Char) := fun cs =>
  let rest := cs.dropWhile isBlank
  .ok (rest.head?, rest)

/-- Takes one character. -/
def advance : Reader Unit := modify (List.drop 1)

/-- Takes the letters of a word. -/
def word : List Char → Reader Unit
  | [] => pure ()
  | w :: ws => fun
    | [] => .error .endInValue
    | c :: cs => if c = w then word ws cs else .error .wordExpected

/-- Requires that nothing but blanks is left. -/
def finish : Reader Unit := do
  if (← peek).isSome then fail .trailingText

/-! ## Strings -/

/-- The value of a hexadecimal digit. -/
def hexDigit? (c : Char) : Option Nat :=
  if '0' ≤ c ∧ c ≤ '9' then some (c.toNat - '0'.toNat)
  else if 'a' ≤ c ∧ c ≤ 'f' then some (c.toNat - 'a'.toNat + 10)
  else if 'A' ≤ c ∧ c ≤ 'F' then some (c.toNat - 'A'.toNat + 10)
  else none

/-- The value of four hexadecimal digits. -/
def hexValue? (a b c d : Char) : Option Nat := do
  return (((← hexDigit? a) * 16 + (← hexDigit? b)) * 16 + (← hexDigit? c)) * 16 + (← hexDigit? d)

/-- What is wrong where four hexadecimal digits should stand: with fewer than four bytes left, the
text ends too early. -/
def hexFault (cs : List Char) : Fault :=
  if (String.ofList (cs.take 4)).utf8ByteSize < 4 then .endInString else .badEscape

/-- Four hexadecimal digits. -/
def fourHex : Reader Nat := fun
  | a :: b :: c :: d :: rest =>
    match hexValue? a b c d with
    | some n => .ok (n, rest)
    | none => .error (hexFault (a :: b :: c :: d :: rest))
  | cs => .error (hexFault cs)

/-- Whether a code unit is the first of a surrogate pair. -/
def isLeading (n : Nat) : Bool := 0xd800 ≤ n && n ≤ 0xdbff

/-- Whether a code unit is the second of a surrogate pair. -/
def isTrailing (n : Nat) : Bool := 0xdc00 ≤ n && n ≤ 0xdfff

/-- The next character of a string, which must not end here. -/
def inString (f : Fault) (wanted : Char) : Reader Unit := fun
  | [] => .error .endInString
  | c :: cs => if c = wanted then .ok ((), cs) else .error f

/-- The character of a code unit, or of a surrogate pair whose second half follows as an escape. -/
def unitChar (n : Nat) : Reader Char :=
  if isTrailing n then fail .surrogateAlone
  else if isLeading n then do
    inString .surrogateCut '\\'
    inString .surrogateCut 'u'
    let m ← fourHex
    if isTrailing m then pure (Char.ofNat ((n - 0xd800) * 0x400 + (m - 0xdc00) + 0x10000))
    else fail .surrogateAlone
  else pure (Char.ofNat n)

/-- The character that an escape stands for, after its backslash; `unit` reads what `u` needs. -/
def escape (unit : Nat → Reader Char) : Reader Char := fun
  | [] => .error .endInString
  | c :: cs =>
    match c with
    | '"' => .ok ('"', cs)
    | '\\' => .ok ('\\', cs)
    | '/' => .ok ('/', cs)
    | 'b' => .ok ('\x08', cs)
    | 'f' => .ok ('\x0c', cs)
    | 'n' => .ok ('\n', cs)
    | 'r' => .ok ('\r', cs)
    | 't' => .ok ('\t', cs)
    | 'u' => (do unit (← fourHex) : Reader Char) cs
    | _ => .error .badEscape

/-- The next character of a string, or nothing at the closing quote. -/
def stringChar (unit : Nat → Reader Char) : Reader (Option Char) := fun
  | [] => .error .endInString
  | c :: cs =>
    if c = '"' then .ok (none, cs)
    else if c = '\\' then (some <$> escape unit) cs
    else if c.toNat < 0x20 then .error .controlCharacter
    else .ok (some c, cs)

/-- The characters up to the closing quote. -/
def stringChars (unit : Nat → Reader Char) : (turns : List Char) → Reader (List Char)
  | [] => fail .endInString
  | _ :: turns => do
    match ← stringChar unit with
    | none => pure []
    | some c => return c :: (← stringChars unit turns)

/-- The rest of a string, after its opening quote. -/
def stringBody : Reader String := do
  return String.ofList (← stringChars unitChar (← get))

/-! ## Lists -/

/-- Whether another item of a list follows; `first` tells that none was read yet. -/
def listGoesOn (first : Bool) : Reader Bool := do
  match ← peek with
  | none => fail .endInList
  | some ']' => pure false
  | some ',' =>
    if first then pure true
    else do
      advance
      match ← peek with
      | none => fail .endInValue
      | some ']' => fail .trailingComma
      | some _ => pure true
  | some _ => if first then pure true else fail .listSeparatorExpected

/-- Takes the closing bracket of a list. -/
def closeList : Reader Unit := do
  match ← peek with
  | none => fail .endInList
  | some ']' => advance
  | some ',' =>
    advance
    if (← peek) = some ']' then fail .trailingComma else fail .trailingText
  | some _ => fail .trailingText

/-- The items that are left in a list. -/
def items (item : Reader α) : (turns : List Char) → (first : Bool) → Reader (List α)
  | [], _ => fail .endInList
  | _ :: turns, first => do
    if ← listGoesOn first then
      let a ← item
      return a :: (← items item turns false)
    else return []

/-- The rest of a list, after its opening bracket. -/
def listBody (item : Reader α) : Reader (List α) := do
  let as ← items item (← get) true
  closeList
  return as

/-! ## Objects -/

/-- Whether another member of an object follows; `first` tells that none was read yet. -/
def objectGoesOn (first : Bool) : Reader Bool := do
  match ← peek with
  | none => fail .endInObject
  | some '\x7d' => pure false
  | some ',' =>
    if first then fail .keyNotString
    else do
      advance
      match ← peek with
      | none => fail .endInValue
      | some '"' => pure true
      | some '\x7d' => fail .trailingComma
      | some _ => fail .keyNotString
  | some '"' => if first then pure true else fail .objectSeparatorExpected
  | some _ => if first then fail .keyNotString else fail .objectSeparatorExpected

/-- Takes the closing brace of an object. -/
def closeObject : Reader Unit := do
  match ← peek with
  | none => fail .endInObject
  | some '\x7d' => advance
  | some ',' => fail .trailingComma
  | some _ => fail .trailingText

/-- A key, which starts with the quote that is next. -/
def key : Reader String := do
  advance
  stringBody

/-- The colon between a key and its value. -/
def colon : Reader Unit := do
  match ← peek with
  | none => fail .endInObject
  | some ':' => advance
  | some _ => fail .colonExpected

/-- Folds the members that are left in an object.  The step reads from the colon on. -/
def members (step : β → String → Reader β) :
    (turns : List Char) → (first : Bool) → β → Reader β
  | [], _, _ => fail .endInObject
  | _ :: turns, first, acc => do
    if ← objectGoesOn first then
      let k ← key
      let acc ← step acc k
      members step turns false acc
    else return acc

/-- The rest of an object, after its opening brace. -/
def objectBody (step : β → String → Reader β) (start : β) : Reader β := do
  let acc ← members step (← get) true start
  closeObject
  return acc

/-! ## Whole texts -/

/-- Reads a whole text. -/
def run (r : Reader α) (text : String) : Except Fault α := do
  let (a, _) ← (do
    let a ← r
    finish
    return a : Reader α) text.toList
  return a

end Reader

end FieldAccess.Json
