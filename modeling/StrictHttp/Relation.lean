/-!
# Relations between values

Four relations of order, equality and its negation. A relation of order is a test of how the left
operand stands to the right one; asked from the right it becomes the swapped relation.
-/

namespace StrictHttp

inductive OrderRelation where
  | lt
  | le
  | gt
  | ge
deriving DecidableEq

inductive Relation where
  | order (relation : OrderRelation)
  | eq
  | ne
deriving DecidableEq

namespace OrderRelation

def sign : OrderRelation → String
  | lt => "<"
  | le => "<="
  | gt => ">"
  | ge => ">="

def swap : OrderRelation → OrderRelation
  | lt => gt
  | le => ge
  | gt => lt
  | ge => le

def holds : OrderRelation → Ordering → Bool
  | lt, o => o.isLT
  | le, o => o.isLE
  | gt, o => o.isGT
  | ge, o => o.isGE

@[simp] theorem swap_swap (r : OrderRelation) : r.swap.swap = r := by cases r <;> rfl

@[simp] theorem holds_swap (r : OrderRelation) (o : Ordering) :
    r.swap.holds o.swap = r.holds o := by
  cases r <;> cases o <;> rfl

end OrderRelation

def Relation.sign : Relation → String
  | order relation => relation.sign
  | eq => "=="
  | ne => "!="

end StrictHttp
