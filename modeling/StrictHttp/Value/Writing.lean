import StrictHttp.Fault

/-!
# Writing values

Whoever hands out the text of a value writes it, which fails if the value has an integer with too
many digits. `Value.literal` and `Value.display` by themselves have no limit.
-/

namespace StrictHttp.Value

/-- One of the texts of a value, which show all its integers. -/
def write (form : Value → String) (v : Value) : Except Fault String :=
  if v.isWritable then .ok (form v) else .error .longNumeral

end StrictHttp.Value
