import StrictHttp.Value.Coercion

/-!
# Building headers

A header is built from a name and a value, or read from one line. Both ways coerce what they are
given first and then share `Header.ofBytes`: the name must be a token as it stands, the value is
trimmed and must then be a field value. The first stage that fails decides the fault.
-/

namespace StrictHttp.Header

def colon : UInt8 := 0x3A

/-- Coerces one part of a header; text outside ASCII is a fault of the header here. -/
def coerce (part : Part) (v : Value) : Except Fault Bytes :=
  match v.toBytes with
  | .error (.nonAscii ..) => .error (.nonAsciiHeader part)
  | result => result

def ofBytes (variant : Variant) (name value : Bytes) : Except Fault Header :=
  if !Grammar.fieldName.accepts name then .error (.rejected ⟨.illegalName, name⟩)
  else if !Grammar.fieldValue.accepts value.trim then
    .error (.rejected ⟨.illegalValue, value.trim⟩)
  else .ok ⟨variant, name, value.trim⟩

def make (variant : Variant) (name value : Value) : Except Fault Header := do
  let name ← coerce .name name
  let value ← coerce .value value
  ofBytes variant name value

/-- Reads a line without its line end. The first colon ends the name; later ones are part of the
value. -/
def parseBytes (variant : Variant) (line : Bytes) : Except Fault Header :=
  match line.span (· != colon) with
  | (_, []) => .error (.rejected ⟨.noColon, line⟩)
  | (name, _ :: value) => ofBytes variant name value

def parse (variant : Variant) (line : Value) : Except Fault Header := do
  let line ← coerce .line line
  parseBytes variant line

/-- Builds a header again from what it holds. -/
def rebuild (h : Header) : Except Fault Header :=
  make h.variant (.bytes .plain h.name) (.bytes .plain h.value)

end StrictHttp.Header
