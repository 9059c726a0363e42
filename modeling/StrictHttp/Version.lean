import StrictHttp.Value.Order
import StrictHttp.Value.Writing

/-!
# Protocol versions

A version is made from any pair, and a version of the wanted variant is taken as it is. Compared to
a pair it answers -1, 0 or 1. A value that is no pair is refused by an error that shows it, so it is
written first. Only versions have methods, so another value is at fault before the arguments of a
method are looked at.
-/

namespace StrictHttp.Version

/-- Whether a version of the variant `given` counts as one of the variant `wanted`. -/
def isA : (given wanted : Variant) → Bool
  | _, .base => true
  | .derived, .derived => true
  | .base, .derived => false

/-- The refusal of what is no pair. -/
def refuse (v : Value) : Except Fault α := do
  .error (.notPair (← v.write Value.literal))

def ofPair (wanted : Variant) (v : Value) : Except Fault Value :=
  match v with
  | .version given a b => .ok (.version (if isA given wanted then given else wanted) a b)
  | .tuple [a, b] => .ok (.version wanted a b)
  | _ => refuse v

/-- The components of a version of which a method is asked. -/
def components (method : String) : Value → Except Fault (Value × Value)
  | .version _ a b => .ok (a, b)
  | v => .error (.noAttribute v.kind method)

def toPair (v : Value) : Except Fault Value := do
  let (a, b) ← components "to_pair" v
  return .tuple [a, b]

def sign : Ordering → Int
  | .lt => -1
  | .eq => 0
  | .gt => 1

/-- How a version of the components `ours` stands to a pair. -/
def compareToPair (ours : Value × Value) (other : Value) : Except Fault Int :=
  match other.pair? with
  | some (c, d) => (Value.weighPair ours.1 ours.2 c d).map sign
  | none => refuse other

/-- The versions of the protocol that have names. -/
inductive Named where
  | http09
  | http10
  | http11
deriving DecidableEq

def Named.value : Named → Value
  | http09 => .version .base (.int 0) (.int 9)
  | http10 => .version .base (.int 1) (.int 0)
  | http11 => .version .base (.int 1) (.int 1)

end StrictHttp.Version
