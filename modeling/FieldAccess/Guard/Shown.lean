/-
  How a wrapped instance is shown in diagnostic output.

  The model, the protection and both kinds of overrides, in the order in which they were made and with
  the entries that hold no field; the instance itself is left out.

  Core only.
-/
import FieldAccess.Guard.Wrapper

namespace FieldAccess

/-- How an action is shown. -/
def Action.shown : Action → String
  | create => "Create"
  | read => "Read"
  | update => "Update"
  | delete => "Delete"
  | custom n => "Custom(" ++ Text.literal n ++ ")"

/-- How a field set is shown. -/
def FieldSet.shown (fs : FieldSet) : String :=
  Text.shownRecord "FieldSet" [("fields", Text.shownSet (fs.toList.map Text.literal))]

/-- How overrides are shown. -/
def Overrides.shown (o : Overrides) : String :=
  Text.shownSet (o.entries.map fun e => Text.shownEntry (e.1.shown, FieldSet.shown e.2))

/-- How a wrapped instance is shown. -/
def Wrapper.shown {R : Type} [Modelled R] (w : Wrapper R) : String :=
  Text.shownPart "Guarded" [
    ("model", Text.literal (Modelled.modelName w.subject)),
    ("protected", Text.shownBool w.isProtected),
    ("allowed", Overrides.shown w.allowed),
    ("denied", Overrides.shown w.denied)]

end FieldAccess
