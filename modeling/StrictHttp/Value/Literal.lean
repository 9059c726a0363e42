import StrictHttp.Value.Basic

/-!
# Literals

`Value.literal` writes a value so that its kind can be seen: texts and byte strings are quoted, a
tuple of one item has a comma, and each value of a dictionary follows its name. `Value.display` is
the plain form, which differs for texts, which stand for themselves, and for versions, whose
components are joined by a full stop. Both write the same integers, and a value can be written only
if none of these has more digits than the limit (`Value.isWritable`).
-/

namespace StrictHttp

def Bytes.literalAs (s : Bytes) : ByteForm → String
  | .plain => s.quote
  | .buffer => "bytearray(" ++ s.quoteGuarded ++ ")"
  | .view => "<memory>"

def tupleLiteral : List String → String
  | [item] => "(" ++ item ++ ",)"
  | items => "(" ++ ", ".intercalate items ++ ")"

def dictionaryLiteral (names values : List String) : String :=
  let entries := List.zipWith (fun name value => Text.quote name ++ ": " ++ value) names values
  "\x7b" ++ ", ".intercalate entries ++ "\x7d"

mutual
def Value.literal : Value → String
  | .null => "None"
  | .bool b => if b then "True" else "False"
  | .int n => n.repr
  | .text s => Text.quote s
  | .bytes form data => data.literalAs form
  | .list items => "[" ++ ", ".intercalate (literals items) ++ "]"
  | .tuple items => tupleLiteral (literals items)
  | .header h => h.literal
  | .version variant major minor =>
    versionName variant ++ "(major=" ++ major.literal ++ ", minor=" ++ minor.literal ++ ")"
  | .dictionary names values => dictionaryLiteral names (literals values)
def literals : List Value → List String
  | [] => []
  | item :: items => item.literal :: literals items
end

def Value.display : Value → String
  | .text s => s
  | .version _ major minor => major.display ++ "." ++ minor.display
  | value => value.literal

/-- The most digits that the numeral of an integer may have; the sign does not count. -/
def digitLimit : Nat := 4300

mutual
def Value.isWritable : Value → Bool
  | .int n => n.natAbs.repr.length ≤ digitLimit
  | .list items | .tuple items => allWritable items
  | .version _ major minor => major.isWritable && minor.isWritable
  | .dictionary _ values => allWritable values
  | _ => true
def allWritable : List Value → Bool
  | [] => true
  | item :: items => item.isWritable && allWritable items
end

end StrictHttp
