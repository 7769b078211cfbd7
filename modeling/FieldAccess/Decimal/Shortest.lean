/-
  The shortest decimal that reads back as a given binary number.

  1. **Binary numbers** — a positive finite double is `mantissa · 2 ^ exponent`; the reals that round
     to it form an interval, whose ends belong to it iff the mantissa is even.

  2. **Grids** — the decimals with a given number of digits form a grid around the number.  If any of
     them lies in the interval, then so does one of the number's two neighbours on the grid, so it is
     enough to test these two, from one digit up to seventeen.

  3. **Choice** — of two neighbours in the interval the nearer one is taken, of two equally near ones
     the even one.

  All arithmetic is exact, on natural numbers.  Core only.
-/

namespace FieldAccess.Decimal

/-! ## Binary numbers and their intervals -/

/-- A positive binary number `mantissa · 2 ^ exponent`; `narrow` tells that its lower neighbour is
half as far away as its upper one. -/
structure Binary where
  mantissa : Nat
  exponent : Int
  narrow : Bool

namespace Binary

/-- The magnitude of a finite double. -/
def ofFloat (x : Float) : Binary :=
  let bits := x.toBits.toNat
  let e := bits / Nat.pow 2 52 % Nat.pow 2 11
  let f := bits % Nat.pow 2 52
  { mantissa := if e = 0 then f else f + Nat.pow 2 52
    exponent := (max e 1 : Nat) - 1075
    narrow := f = 0 && 1 < e }

/-- Whether the sign bit of a double is set. -/
def signOf (x : Float) : Bool := Nat.pow 2 63 ≤ x.toBits.toNat

end Binary

/-- A number measured on the decimal grid `10 ^ place`, in exact fractions with one denominator. -/
structure Grid where
  /-- Four times the numerator of the number. -/
  value : Nat
  /-- Numerators of the ends of the interval, four times. -/
  low : Nat
  high : Nat
  /-- One step of the grid, four times. -/
  step : Nat
  /-- Whether the ends belong to the interval. -/
  closed : Bool

namespace Grid

/-- Measures a binary number on the grid of the multiples of `10 ^ place`. -/
def measure (b : Binary) (place : Int) : Grid :=
  let scale := Nat.pow 2 b.exponent.toNat * Nat.pow 10 (-place).toNat
  { value := 4 * b.mantissa * scale
    low := (4 * b.mantissa - if b.narrow then 1 else 2) * scale
    high := (4 * b.mantissa + 2) * scale
    step := 4 * (Nat.pow 2 (-b.exponent).toNat * Nat.pow 10 place.toNat)
    closed := b.mantissa % 2 = 0 }

/-- Whether the `n`-th point of the grid reads back as the number. -/
def holds (g : Grid) (n : Nat) : Bool :=
  if g.closed then g.low ≤ n * g.step && n * g.step ≤ g.high
  else g.low < n * g.step && n * g.step < g.high

/-- The number of the nearest point that reads back, if any point does. -/
def nearest? (g : Grid) : Option Nat :=
  let n := g.value / g.step
  let below := g.value - n * g.step
  let above := (n + 1) * g.step - g.value
  match g.holds n, g.holds (n + 1) with
  | false, false => none
  | true, false => some n
  | false, true => some (n + 1)
  | true, true =>
    if below < above then some n
    else if above < below then some (n + 1)
    else if n % 2 = 0 then some n else some (n + 1)

/-- A chosen point lies in the interval. -/
theorem holds_of_nearest? {g : Grid} {n : Nat} (h : g.nearest? = some n) : g.holds n = true := by
  unfold nearest? at h
  simp only at h
  split at h
  · cases h
  · next h1 _ => cases h; exact h1
  · next _ h2 => cases h; exact h2
  · next h1 h2 =>
    split at h
    · cases h; exact h1
    · split at h
      · cases h; exact h2
      · split at h
        · cases h; exact h1
        · cases h; exact h2

end Grid

/-! ## Digits -/

/-- The decimal `0.d₁d₂… · 10 ^ point`. -/
structure Digits where
  digits : List Nat
  point : Int

/-- The decimal digits of a positive number, without the zeros at the end. -/
def significant (n : Nat) : List Nat :=
  ((Nat.toDigits 10 n).map fun c => c.toNat - '0'.toNat).reverse.dropWhile (· == 0) |>.reverse

/-- Whether a binary number is below `10 ^ k`. -/
def below (b : Binary) (k : Int) : Bool :=
  b.mantissa * (Nat.pow 2 b.exponent.toNat * Nat.pow 10 (-k).toNat) <
    Nat.pow 2 (-b.exponent).toNat * Nat.pow 10 k.toNat

/-- The least power of ten above a positive double. -/
def decade (b : Binary) : Int :=
  ((List.range 633).map fun i : Nat => (i : Int) - 323).find? (below b) |>.getD 310

/-- The digits of the grid point chosen for `n` digits of a number below `10 ^ top`. -/
def onGrid? (b : Binary) (top : Int) (n : Nat) : Option Digits :=
  (Grid.measure b (top - n)).nearest?.map fun k =>
    -- the point `10 ^ n` has one digit more than the grid
    { digits := significant k, point := if k = Nat.pow 10 n then top + 1 else top }

/-- The fewest digits that read back as a positive double. -/
def shortest (b : Binary) : Digits :=
  let top := decade b
  ((List.range 18).drop 1).findSome? (onGrid? b top) |>.getD ⟨[], top⟩

/-! ## Texts -/

/-- How a decimal is written: positionally when the exponent of its first digit lies between the two
bounds, and with an exponent otherwise. -/
structure Style where
  lowest : Int
  highest : Int

/-- The text of a digit. -/
def digitChar (d : Nat) : Char := Nat.digitChar d

/-- Positional text with at least one digit on each side of the point. -/
def Digits.positional (ds : Digits) : List Char :=
  let cs := ds.digits.map digitChar
  let zeros (n : Int) := List.replicate n.toNat '0'
  let whole := if ds.point ≤ 0 then ['0'] else cs.take ds.point.toNat ++ zeros (ds.point - cs.length)
  let fraction := zeros (-ds.point) ++ cs.drop ds.point.toNat
  whole ++ ['.'] ++ if fraction.isEmpty then ['0'] else fraction

/-- Text with an exponent, which always carries its sign. -/
def Digits.scientific (ds : Digits) : List Char :=
  let cs := ds.digits.map digitChar
  let fraction := cs.drop 1
  let e := ds.point - 1
  cs.take 1 ++ (if fraction.isEmpty then [] else '.' :: fraction) ++
    ['e', if e < 0 then '-' else '+'] ++ Nat.toDigits 10 e.natAbs

/-- The text of a positive decimal. -/
def Style.text (style : Style) (ds : Digits) : List Char :=
  let e := ds.point - 1
  if style.lowest ≤ e ∧ e ≤ style.highest then ds.positional else ds.scientific

/-- The text of a finite double. -/
def Style.floatText (style : Style) (x : Float) : List Char :=
  let sign := if Binary.signOf x then ['-'] else []
  let b := Binary.ofFloat x
  sign ++ if b.mantissa = 0 then ['0', '.', '0'] else style.text (shortest b)

example : significant 1200 = [1, 2] := by decide +kernel
example : Style.text ⟨-5, 15⟩ ⟨[1, 5], -5⟩ = ['1', '.', '5', 'e', '-', '6'] := by decide +kernel
example : Style.text ⟨-5, 15⟩ ⟨[1, 2], 4⟩ = ['1', '2', '0', '0', '.', '0'] := by decide +kernel
example : (shortest ⟨1, -1074, false⟩).digits = [5] := by decide +kernel

end FieldAccess.Decimal
