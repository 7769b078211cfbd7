/-
  How values are shown in diagnostic output.

  Truth values are words, lists stand between brackets, sets between braces; a record is its name and
  its fields between braces, and two dots stand for the fields that are left out.

  Core only.
-/
import FieldAccess.Text.Literal

namespace FieldAccess.Text

/-- A truth value. -/
def shownBool (b : Bool) : String := if b then "true" else "false"

/-- A list of shown values. -/
def shownList (items : List String) : String := "[" ++ ", ".intercalate items ++ "]"

/-- A set of shown values. -/
def shownSet (items : List String) : String := "\x7b" ++ ", ".intercalate items ++ "\x7d"

/-- An entry of a record or a map. -/
def shownEntry (e : String × String) : String := e.1 ++ ": " ++ e.2

/-- A record with all its fields. -/
def shownRecord (name : String) (fields : List (String × String)) : String :=
  name ++ " \x7b " ++ ", ".intercalate (fields.map shownEntry) ++ " \x7d"

/-- A record of which some fields are left out. -/
def shownPart (name : String) (fields : List (String × String)) : String :=
  name ++ " \x7b " ++ ", ".intercalate (fields.map shownEntry ++ [".."]) ++ " \x7d"

example : shownRecord "Point" [("x", "1"), ("y", "2")] = "Point \x7b x: 1, y: 2 \x7d" := by decide
example : shownPart "Point" [("x", "1")] = "Point \x7b x: 1, .. \x7d" := by decide

end FieldAccess.Text
