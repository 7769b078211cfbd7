/-
  Fitting a text into a column.

  A text is first cut to a number of characters, if one is given, and then filled with spaces up to
  the width of the column, if it is shorter.  Characters are code points.  Text stands at the left
  unless told otherwise; in the centre, an odd space goes to the right.

  Core only.
-/

namespace FieldAccess.Text

/-- Where a text stands in its column. -/
inductive Alignment where
  | left
  | right
  | centre
deriving DecidableEq, Inhabited

/-- A column: how the text stands, how wide it is at least, and to how many characters it is cut. -/
structure Column where
  alignment : Alignment := .left
  width : Option Nat := none
  precision : Option Nat := none

namespace Alignment

/-- The part of `n` spaces that goes before the text. -/
def before : Alignment → Nat → Nat
  | left, _ => 0
  | right, n => n
  | centre, n => n / 2

theorem before_le (a : Alignment) (n : Nat) : a.before n ≤ n := by
  cases a <;> simp only [before] <;> omega

end Alignment

namespace Column

/-- Cuts a text to the precision. -/
def cut (col : Column) (cs : List Char) : List Char :=
  match col.precision with
  | none => cs
  | some n => cs.take n

/-- How many spaces a cut text lacks. -/
def missing (col : Column) (cs : List Char) : Nat := col.width.getD 0 - cs.length

/-- Fits a text into the column. -/
def fit (col : Column) (cs : List Char) : List Char :=
  let text := col.cut cs
  let gap := col.missing text
  let before := col.alignment.before gap
  List.replicate before ' ' ++ text ++ List.replicate (gap - before) ' '

/-- Fits a string into the column. -/
def format (col : Column) (s : String) : String := String.ofList (col.fit s.toList)

/-- A fitted text is as long as the cut text, but never shorter than the width. -/
theorem length_fit (col : Column) (cs : List Char) :
    (col.fit cs).length = max (col.width.getD 0) (col.cut cs).length := by
  have := col.alignment.before_le (col.missing (col.cut cs))
  simp only [fit, missing, List.length_append, List.length_replicate] at *
  omega

end Column

/-- Fills a text with spaces on its right up to a width. -/
def padRight (width : Nat) (s : String) : String :=
  Column.format ⟨.left, some width, none⟩ s

theorem toList_padRight (width : Nat) (s : String) :
    (padRight width s).toList = s.toList ++ List.replicate (width - s.toList.length) ' ' := by
  show (String.ofList _).toList = _
  rw [String.toList_ofList]
  rfl

example : padRight 5 "ab" = "ab   " := by decide
example : Column.format ⟨.centre, some 5, some 2⟩ "abc" = " ab  " := by decide

end FieldAccess.Text
