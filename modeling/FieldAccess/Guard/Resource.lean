/-
  Resources: model instances whose fields can be read, written and cleared by name.

  Writing and clearing change the instance in place.  They end well or with a fault, and in both cases
  the instance is as it is then: nothing takes back what was assigned before a fault.

  Core only.
-/
import FieldAccess.AccessError
import FieldAccess.Oracle.Request

namespace FieldAccess

/-- A change of an instance in place.  The faults stand over the state, so that what was assigned before
a fault stays assigned. -/
abbrev Edit (R α : Type) := ExceptT FieldFault (StateM R) α

example : (do modify (· + 1); throw .required : Edit Nat Unit).run.run 0 = (.error .required, 1) := rfl

/-- Instances with fields. -/
class Resource (R : Type) extends Modelled R where
  /-- The names of the fields, in order. -/
  fieldNames : R → List String
  /-- The value of a field, if there is such a field. -/
  readField : R → String → Option Json
  /-- Assigns a value to a field. -/
  writeField : String → Json → Edit R Unit
  /-- Empties a field. -/
  clearField : String → Edit R Unit

end FieldAccess
