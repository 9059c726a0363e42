import StrictHttp.Fault

/-!
# Items and attributes

What a value shows of itself: its items when it is read as a sequence, and its named attributes.
Nothing can be changed through an attribute; the faults differ by what was tried.
-/

namespace StrictHttp.Value

/-- The items of a value: the characters of a text, the octets of a byte string, the items of a
sequence, the components of a version, the lowered name and the value of a header, the names of a
dictionary. -/
def items : Value → Except Fault (List Value)
  | text s => .ok (s.toList.map fun c => text c.toString)
  | bytes _ data => .ok (data.map fun b => int b.toNat)
  | list xs | tuple xs => .ok xs
  | version _ major minor => .ok [major, minor]
  | header h => .ok [bytes .plain h.field, bytes .plain h.value]
  | dictionary names _ => .ok (names.map text)
  | value => .error (.notIterable value.kind)

/-- The attributes of headers and versions. Each part of a header is also found under the name at
which it is stored, which begins with an underscore. -/
def named? : Value → String → Option Value
  | header h, "field" | header h, "_field" => some (bytes .plain h.field)
  | header h, "raw_field" | header h, "_raw_field" => some (bytes .plain h.name)
  | header h, "value" | header h, "_value" => some (bytes .plain h.value)
  | version _ major _, "major" => some major
  | version _ _ minor, "minor" => some minor
  | _, _ => none

def readNamed (v : Value) (name : String) : Except Fault Value :=
  match v.named? name with
  | some a => .ok a
  | none => .error (.noAttribute v.kind name)

/-- The fault of setting or deleting an attribute. -/
def changeFault (v : Value) (change : Change) (name : String) : Fault :=
  match v with
  | header _ => .immutableHeader
  | _ => if (v.named? name).isSome then .fixedComponent change else .noAttribute v.kind name

end StrictHttp.Value
