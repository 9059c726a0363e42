import StrictHttp.Call
import StrictHttp.Value.Access
import StrictHttp.Version

/-!
# Operands

An operand is an expression for a value: a literal, a call, a version that has a name, or the result
of an earlier step. Its parts are evaluated from left to right, and the first fault is its own.
-/

namespace StrictHttp

inductive Operand where
  | null
  | bool (b : Bool)
  | int (n : Int)
  | text (s : String)
  | bytes (form : ByteForm) (data : Bytes)
  | list (items : List Operand)
  | tuple (items : List Operand)
  /-- A call whose arguments are the items of one operand. -/
  | call (callee : Call) (variant : Variant) (arguments : Operand)
  | named (v : Version.Named)
  | result (step : Nat)

/-- The results of the steps so far; a failed step has none. -/
abbrev Memory := List (Option Value)

def Memory.recall (m : Memory) (step : Nat) : Except Fault Value :=
  match m[step]? with
  | some (some v) => .ok v
  | _ => .error .failedStep

mutual
def Operand.eval (m : Memory) : Operand → Except Fault Value
  | .null => .ok .null
  | .bool b => .ok (.bool b)
  | .int n => .ok (.int n)
  | .text s => .ok (.text s)
  | .bytes form data => .ok (.bytes form data)
  | .list items => (evalAll m items).map .list
  | .tuple items => (evalAll m items).map .tuple
  | .call callee variant arguments => do
    let arguments ← arguments.eval m
    callee.make variant (← arguments.items)
  | .named v => .ok v.value
  | .result step => m.recall step
def evalAll (m : Memory) : List Operand → Except Fault (List Value)
  | [] => .ok []
  | item :: items => do
    let v ← item.eval m
    let rest ← evalAll m items
    return v :: rest
end

/-- The items of the operand's value. -/
def Operand.items (m : Memory) (operand : Operand) : Except Fault (List Value) := do
  (← operand.eval m).items

end StrictHttp
