import StrictHttp.Value.Basic

/-!
# Equality of values

Two values are the same when they have the same atom, or are sequences of one sort with the same
items. A version is a tuple of its two components here, truth values are integers, byte strings of
any form are compared by content, headers by their lowered names and their values, and dictionaries
by their names and values; those with the same names have them in the same order.
-/

namespace StrictHttp

/-- What equality sees of a value without items. -/
inductive Atom where
  | null
  | int (n : Int)
  | text (s : String)
  | bytes (data : Bytes)
  | header (field value : Bytes)
deriving DecidableEq, Hashable

namespace Value

def atom? : Value → Option Atom
  | null => some .null
  | bool b => some (.int b.toInt)
  | int n => some (.int n)
  | text s => some (.text s)
  | bytes _ data => some (.bytes data)
  | header h => some (.header h.field h.value)
  | list _ | tuple _ | version .. | dictionary .. => none

def sameAtom (x y : Value) : Bool :=
  match x.atom?, y.atom? with
  | some a, some b => a = b
  | _, _ => false

mutual
def same : Value → Value → Bool
  | list xs, list ys => sameAll xs ys
  | tuple xs, tuple ys => sameAll xs ys
  | tuple xs, version _ c d => sameAll xs [c, d]
  | version _ a b, tuple [c, d] => a.same c && b.same d
  | version _ a b, version _ c d => a.same c && b.same d
  | dictionary ns xs, dictionary ms ys => ns == ms && sameAll xs ys
  | x, y => sameAtom x y
def sameAll : List Value → List Value → Bool
  | [], [] => true
  | x :: xs, y :: ys => x.same y && sameAll xs ys
  | _, _ => false
end

end Value

end StrictHttp
