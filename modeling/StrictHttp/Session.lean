import StrictHttp.Session.Operation

/-!
# Sessions

A session is a list of operations run in order, each of which may use the results of earlier ones.
It goes on after a fault, but the failed step has no result.
-/

namespace StrictHttp

def remembered : Answer → Option Value
  | .ok r => some r.toValue
  | .error _ => none

namespace Session

def runFrom (m : Memory) : List Operation → List Answer
  | [] => []
  | op :: ops =>
    let answer := op.perform m
    answer :: runFrom (m ++ [remembered answer]) ops

def run (ops : List Operation) : List Answer := runFrom [] ops

@[simp] theorem length_runFrom (m : Memory) (ops : List Operation) :
    (runFrom m ops).length = ops.length := by
  induction ops generalizing m with
  | nil => rfl
  | cons op ops ih => simp [runFrom, ih]

end Session

end StrictHttp
