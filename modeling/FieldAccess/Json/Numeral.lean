/-
  Numerals: the spelling of numbers in JSON text, and the values they stand for.

  1. **Spelling** — an optional sign, an integer without needless leading zeros, an optional fraction,
     an optional exponent; `scan` takes one from the front of a text.

  2. **Value** — a numeral without fraction and exponent that fits 64 bits stands for an integer.  Any
     other is evaluated in two steps: digits are gathered into a 64-bit significand until the next one
     would not fit, and the significand, as a double, is then multiplied or divided by a power of ten.
     This is one rounding per step, so the result may differ from the nearest double in its last bit.

  Core only.
-/
import FieldAccess.Json.Reader

namespace FieldAccess.Json

/-- A scanned numeral; digits are listed from the left. -/
structure Numeral where
  negative : Bool
  whole : List Nat
  fraction : List Nat
  /-- Sign and digits of the exponent. -/
  exponent : Option (Bool × List Nat)

namespace Numeral

/-! ## Spelling -/

/-- Splits the digits off a text. -/
def digits (cs : List Char) : List Nat × List Char :=
  ((cs.takeWhile Char.isDigit).map fun c => c.toNat - '0'.toNat, cs.dropWhile Char.isDigit)

/-- At least one digit. -/
def someDigits : Reader (List Nat) := fun cs =>
  match digits cs, cs with
  | (_ :: _ , _), _ => .ok (digits cs)
  | ([], _), [] => .error .endInValue
  | ([], _), _ :: _ => .error .badNumber

/-- The digits before the point: a zero alone, or digits that do not start with one. -/
def wholeDigits : Reader (List Nat) := do
  let ds ← someDigits
  if ds.head? = some 0 ∧ ds.length ≠ 1 then throw .badNumber
  return ds

/-- The digits after the point, if there is a point. -/
def fractionDigits : Reader (List Nat) := fun
  | '.' :: cs => someDigits cs
  | cs => .ok ([], cs)

/-- The sign of an exponent: whether it is negative. -/
def exponentSign : Reader Bool := fun
  | '+' :: cs => .ok (false, cs)
  | '-' :: cs => .ok (true, cs)
  | cs => .ok (false, cs)

/-- The exponent, if there is one. -/
def exponentPart : Reader (Option (Bool × List Nat)) := fun cs =>
  match cs with
  | c :: rest =>
    if c = 'e' ∨ c = 'E' then
      (do
        let negative ← exponentSign
        return some (negative, ← someDigits) : Reader _) rest
    else .ok (none, cs)
  | [] => .ok (none, cs)

/-- Takes a numeral, which starts with the next character. -/
def scan : Reader Numeral := do
  let negative := (← get).head? = some '-'
  if negative then Reader.advance
  let whole ← wholeDigits
  let fraction ← fractionDigits
  let exponent ← exponentPart
  return { negative, whole, fraction, exponent }

/-! ## Value -/

/-- The largest significand. -/
def maxSignificand : Nat := Nat.pow 2 64 - 1

/-- Appends digits to a significand while it fits; gives the digits that are left. -/
def gather (s : Nat) : List Nat → Nat × List Nat
  | [] => (s, [])
  | d :: ds => if maxSignificand < s * 10 + d then (s, d :: ds) else gather (s * 10 + d) ds

/-- A power of ten as a double. -/
def power (e : Nat) : Float := Float.ofScientific 1 false e

/-- The largest exponent whose power of ten is a double. -/
def maxPower : Nat := 308

/-- Divides by a power of ten, in steps of the largest one. -/
def divide (x : Float) (e : Nat) : Float :=
  if e ≤ maxPower then x / power e
  else if x == 0.0 then x
  else divide (x / power maxPower) (e - maxPower)
termination_by e
decreasing_by simp only [maxPower] at *; omega

/-- Multiplies by a power of ten, unless the product is too large for a double. -/
def multiply? (x : Float) (e : Nat) : Option Float :=
  if e ≤ maxPower then
    let y := x * power e
    if y.isInf then none else some y
  else if x == 0.0 then some x
  else none

/-- The double `s · 10 ^ e`. -/
def scale? (s : Nat) (e : Int) : Option Float :=
  let x := Float.ofNat s
  if 0 ≤ e then multiply? x e.toNat else some (divide x (-e).toNat)

/-- The number that a list of digits spells. -/
def ofDigits (ds : List Nat) : Nat := ds.foldl (fun n d => n * 10 + d) 0

/-- The integer that a numeral spells, if it has no other part and fits 64 bits. -/
def integer? (n : Numeral) : Option Int :=
  let v := ofDigits n.whole
  if n.fraction ≠ [] ∨ n.exponent.isSome then none
  else if n.negative then
    if 0 < v ∧ v ≤ Nat.pow 2 63 then some (-v) else none
  else if v ≤ maxSignificand then some v else none

/-- The double that a numeral spells, or nothing if it is too large. -/
def double? (n : Numeral) : Option Float :=
  let (s, wholeLeft) := gather 0 n.whole
  let (s, fractionLeft) := gather s n.fraction
  let shift : Int := wholeLeft.length - (n.fraction.length - fractionLeft.length : Nat)
  let written : Int := match n.exponent with
    | none => 0
    | some (negative, ds) => if negative then -ofDigits ds else ofDigits ds
  (scale? s (shift + written)).map fun x => if n.negative then -x else x

/-- The number that a numeral stands for. -/
def value (n : Numeral) : Except Fault Number :=
  match n.integer? with
  | some i => .ok (.integer i)
  | none =>
    match n.double? with
    | some x => .ok (.double x)
    | none => .error .numberTooLarge

/-- Takes a number. -/
def read : Reader Number := do
  (← scan).value

end Numeral

end FieldAccess.Json
