import StrictHttp.Header.Basic

/-!
# Values

The values that header fields and versions are built from, compared with and collected among.
Versions may hold any two values, also sequences and other versions. Dictionaries are only ever
results: the groups of a match, an error report, the catalogue, the answers of comparisons.
-/

namespace StrictHttp

/-- Byte strings come as plain ones, as buffers that may grow and as views of other bytes. -/
inductive ByteForm where
  | plain
  | buffer
  | view
deriving DecidableEq

inductive Value where
  | null
  | bool (b : Bool)
  | int (n : Int)
  | text (s : String)
  | bytes (form : ByteForm) (data : Bytes)
  | list (items : List Value)
  | tuple (items : List Value)
  | header (h : Header)
  | version (variant : Variant) (major minor : Value)
  /-- Values with their names, in the order of the names. -/
  | dictionary (names : List String) (values : List Value)

/-- What messages tell apart about a value. -/
inductive Kind where
  | null
  | bool
  | int
  | text
  | bytes (form : ByteForm)
  | list
  | tuple
  | header (variant : Variant)
  | version (variant : Variant)
  | dictionary
deriving DecidableEq

def versionName : Variant → String
  | .base => "HttpVersion"
  | .derived => "SubVersion"

def ByteForm.name : ByteForm → String
  | .plain => "bytes"
  | .buffer => "bytearray"
  | .view => "memoryview"

def Kind.name : Kind → String
  | .null => "NoneType"
  | .bool => "bool"
  | .int => "int"
  | .text => "str"
  | .bytes form => form.name
  | .list => "list"
  | .tuple => "tuple"
  | .header variant => Header.variantName variant
  | .version variant => versionName variant
  | .dictionary => "dict"

namespace Value

def kind : Value → Kind
  | null => .null
  | bool _ => .bool
  | int _ => .int
  | text _ => .text
  | bytes form _ => .bytes form
  | list _ => .list
  | tuple _ => .tuple
  | header h => .header h.variant
  | version variant _ _ => .version variant
  | dictionary .. => .dictionary

/-- Truth values count as the integers 0 and 1. -/
def int? : Value → Option Int
  | bool b => some b.toInt
  | int n => some n
  | _ => none

/-- The two components of a pair: of a version, or of a tuple of length two. -/
def pair? : Value → Option (Value × Value)
  | tuple [a, b] => some (a, b)
  | version _ a b => some (a, b)
  | _ => none

end Value

end StrictHttp
