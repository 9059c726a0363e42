import StrictHttp.Fault

/-!
# Coercion to bytes

Byte strings of every form are taken as they are, text only if all of it is ASCII, and sequences
item by item if every item is a number from 0 to 255. Otherwise the first offender decides the
fault: the first run of characters outside ASCII, or the first item that is no octet.
-/

namespace StrictHttp.Text

def isAscii (c : Char) : Bool := c.toNat < 0x80

def toAscii (text : List Char) : Except Fault Bytes :=
  match text.dropWhile isAscii with
  | [] => .ok (text.map fun c => c.toNat.toUInt8)
  | rest => .error (.nonAscii (text.takeWhile isAscii).length (rest.takeWhile fun c => !isAscii c))

end StrictHttp.Text

namespace StrictHttp.Value

/-- A number as one octet. -/
def toOctet (v : Value) : Except Fault UInt8 :=
  match v.int? with
  | none => .error (.notInteger v.kind)
  | some n => if 0 ≤ n ∧ n < 256 then .ok n.toNat.toUInt8 else .error .octetRange

def toOctets : List Value → Except Fault Bytes
  | [] => .ok []
  | item :: items => do
    let b ← item.toOctet
    let rest ← toOctets items
    return b :: rest

/-- The bytes of a value. A header is a sequence of two byte strings, so the first of them is its
first offender; a dictionary is the sequence of its names. -/
def toBytes : Value → Except Fault Bytes
  | null => .error (.noBytes .null)
  | bool _ | int _ => .error .bareInteger
  | text s => Text.toAscii s.toList
  | bytes _ data => .ok data
  | list items | tuple items => toOctets items
  | version _ major minor => toOctets [major, minor]
  | header _ => .error (.notInteger (.bytes .plain))
  | dictionary names _ => toOctets (names.map text)

@[simp] theorem toBytes_bytes (form : ByteForm) (data : Bytes) :
    (bytes form data).toBytes = .ok data := rfl

end StrictHttp.Value
