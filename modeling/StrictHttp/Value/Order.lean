import StrictHttp.Fault
import StrictHttp.Value.Equality

/-!
# Order of values

Integers, texts and byte strings are ordered among themselves; lists with lists and tuples with
tuples by the first items that are not the same, then by length. A version stands to any pair as its
components stand, and to nothing else. Of two operands one is asked, and what it cannot answer is
a fault in its words: a version is asked before anything else, and a derived version before a base
one. `Value.weigh` gives how the left operand stands to the right one, or the fault.
-/

namespace StrictHttp

/-- Two byte strings are ordered when both are plain or one is a buffer. -/
def ByteForm.ordersWith : ByteForm → ByteForm → Bool
  | plain, plain => true
  | buffer, _ => true
  | _, buffer => true
  | _, _ => false

namespace Value

def compareAtoms? (x y : Value) : Option Ordering :=
  match x.int?, y.int? with
  | some m, some n => some (compare m n)
  | _, _ =>
    match x, y with
    | text s, text t => some (compare s t)
    | bytes f s, bytes g t => if f.ordersWith g then some (compare s t) else none
    | _, _ => none

mutual
/-- How `left` stands to `right`, asked with the relation. The components of two pairs are always
asked whether the first is greater. -/
def weigh (relation : OrderRelation) : Value → Value → Except Fault Ordering
  | version .base a b, version .derived c d => (weighPair c d a b).map Ordering.swap
  | version _ a b, version _ c d => weighPair a b c d
  | version _ a b, tuple [c, d] => weighPair a b c d
  | tuple [a, b], version _ c d => (weighPair c d a b).map Ordering.swap
  | version variant _ _, right => .error (.unordered relation (.version variant) right.kind)
  | left, version variant _ _ => .error (.unordered relation.swap (.version variant) left.kind)
  | list xs, list ys => weighAll relation xs ys
  | tuple xs, tuple ys => weighAll relation xs ys
  | left, right =>
    match compareAtoms? left right with
    | some o => .ok o
    | none => .error (.unordered relation left.kind right.kind)
termination_by left right => sizeOf left + sizeOf right
/-- How the pair of `a` and `b` stands to the pair of `c` and `d`. -/
def weighPair (a b c d : Value) : Except Fault Ordering :=
  if !a.same c then weigh .gt a c
  else if !b.same d then weigh .gt b d
  else .ok .eq
termination_by sizeOf a + sizeOf b + sizeOf c + sizeOf d + 1
def weighAll (relation : OrderRelation) : List Value → List Value → Except Fault Ordering
  | [], [] => .ok .eq
  | [], _ :: _ => .ok .lt
  | _ :: _, [] => .ok .gt
  | x :: xs, y :: ys => if x.same y then weighAll relation xs ys else weigh relation x y
termination_by xs ys => sizeOf xs + sizeOf ys
end

/-- The answer of a comparison. Equality always has one. -/
def relate : Relation → Value → Value → Except Fault Bool
  | .eq, left, right => .ok (left.same right)
  | .ne, left, right => .ok (!left.same right)
  | .order relation, left, right => (weigh relation left right).map relation.holds

end Value

end StrictHttp
