/-
  Records: instances with any fields and an access table of their own.

  A record keeps the fields it starts with; each can be given any value, and clearing one gives it
  `null`.

  Core only.
-/
import FieldAccess.Guard.Resource
import FieldAccess.Collections.OrderedMap

namespace FieldAccess

/-- Named values with an access table. -/
structure Record where
  table : AccessTable
  values : OrderedMap String Json

namespace Record

instance : Modelled Record where
  modelName _ := "Record"
  permissions r := r.table

/-- Assigns a value to a field that there is. -/
def setField (name : String) (v : Json) : Edit Record Unit := do
  if (← get).values.contains name then
    modify fun r => { r with values := r.values.insert name v }
  else throw .noSuchField

instance : Resource Record where
  fieldNames r := r.values.keys
  readField r name := r.values.get? name
  writeField := setField
  clearField name := setField name .null

end Record

end FieldAccess
