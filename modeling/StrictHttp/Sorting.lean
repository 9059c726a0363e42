import StrictHttp.Value.Order

/-!
# Sorting and selecting

Sorting is by insertion and stable: each item in turn moves to the front past those it precedes.
In descending order, too, items that stand equal keep their order. A comparison that fails ends the
sort or the selection with its fault.
-/

namespace StrictHttp

section
variable {α ε : Type} (precedes : α → α → Except ε Bool)

/-- Inserts `x` into a list whose last items come first. -/
def insertBack (x : α) : List α → Except ε (List α)
  | [] => .ok [x]
  | y :: ys => do
    if ← precedes x y then
      let rest ← insertBack x ys
      return y :: rest
    else return x :: y :: ys

def insertAll (sorted : List α) : List α → Except ε (List α)
  | [] => .ok sorted
  | x :: xs => do
    let sorted ← insertBack precedes x sorted
    insertAll sorted xs

/-- The items so that none precedes an earlier one. -/
def stableSort (items : List α) : Except ε (List α) :=
  (insertAll precedes [] items).map List.reverse

/-- The first of the items that no later one beats. -/
def champion (beats : α → α → Except ε Bool) (best : α) : List α → Except ε α
  | [] => .ok best
  | x :: xs => do
    if ← beats x best then champion beats x xs else champion beats best xs

end

namespace Value

def less (x y : Value) : Except Fault Bool := relate (.order .lt) x y

def greater (x y : Value) : Except Fault Bool := relate (.order .gt) x y

def sort (descending : Bool) (items : List Value) : Except Fault (List Value) :=
  if descending then (stableSort less items.reverse).map List.reverse
  else stableSort less items

def select (extreme : Extreme) : List Value → Except Fault Value
  | [] => .error (.nothingToSelect extreme)
  | x :: xs =>
    match extreme with
    | .max => champion greater x xs
    | .min => champion less x xs

end Value

end StrictHttp
