import StrictHttp.Fault
import StrictHttp.Value.Equality

/-!
# Hash codes

A code is computed from the atoms of a value and from the codes of its items, so values that are the
same have the same code. Lists, dictionaries and buffers have none: the first of them that is met,
from left to right and inwards first, is the fault.
-/

namespace StrictHttp

/-- The codes of atoms, and how the codes of items make the code of their sequence. -/
structure Digest where
  null : UInt64
  int : Int → UInt64
  text : String → UInt64
  bytes : Bytes → UInt64
  /-- One code stands for both variants of headers. -/
  headers : UInt64
  sequence : List UInt64 → UInt64

namespace Digest

/-- A header has the code of a sequence: that it is a header, its lowered name, its value. -/
def atom (d : Digest) : Atom → UInt64
  | .null => d.null
  | .int n => d.int n
  | .text s => d.text s
  | .bytes s => d.bytes s
  | .header field value => d.sequence [d.headers, d.bytes field, d.bytes value]

def standard : Digest where
  null := hash Atom.null
  int n := hash (Atom.int n)
  text s := hash (Atom.text s)
  bytes s := hash (Atom.bytes s)
  headers := hash "headers"
  sequence codes := codes.foldl mixHash (hash codes.length)

end Digest

namespace Value

mutual
def code (d : Digest) : Value → Except Fault UInt64
  | tuple items => (codes d items).map d.sequence
  | version _ major minor => do
    let a ← major.code d
    let b ← minor.code d
    return d.sequence [a, b]
  | bytes .buffer _ => .error (.unhashable (.bytes .buffer))
  | value =>
    match value.atom? with
    | some a => .ok (d.atom a)
    | none => .error (.unhashable value.kind)
def codes (d : Digest) : List Value → Except Fault (List UInt64)
  | [] => .ok []
  | item :: items => do
    let a ← item.code d
    let rest ← codes d items
    return a :: rest
end

end Value

end StrictHttp
