import StrictHttp.Catalogue
import StrictHttp.Collection
import StrictHttp.Session.Operand
import StrictHttp.Sorting
import StrictHttp.Validation
import StrictHttp.Value.Duplicate

/-!
# Operations

An operation evaluates its operands from left to right, and the first fault on the way is its
answer. Two of them work on the first operand before they evaluate the second: a comparison to a
pair looks for the method, and a look-up enters the items.
-/

namespace StrictHttp

inductive Operation where
  | versionOfPair (variant : Variant) (pair : Operand)
  | toPair (subject : Operand)
  | compareToPair (subject pair : Operand)
  | evaluate (subject : Operand)
  | relate (relation : Relation) (left right : Operand)
  | relateAll (left right : Operand)
  | toBytes (data : Operand)
  | validate (pattern : Pattern) (data : Operand) (message : Option Operand)
      (errorClass : ErrorClass)
  | makeError (errorClass : ErrorClass) (message : Operand) (hint : Option Operand)
  | read (subject : Operand) (name : String)
  | set (subject : Operand) (name : String) (value : Operand)
  | delete (subject : Operand) (name : String)
  | literal (subject : Operand)
  | display (subject : Operand)
  | iterate (subject : Operand)
  | code (subject : Operand)
  | copy (method : CopyMethod) (subject : Operand)
  | distinct (items : Operand)
  | lookup (items key : Operand)
  | contains (key items : Operand)
  | sort (descending : Bool) (items : Operand)
  | select (extreme : Extreme) (items : Operand)
  | catalogue

/-- What an operation answers when it succeeds: a value, or how two values stand to each other. -/
inductive Result where
  | value (v : Value)
  | verdicts (answers : List (Relation × Except Fault Bool))

/-- The answer of one comparison: whether it holds, or the name and message of its fault. -/
def verdictValue : Except Fault Bool → Value
  | .ok b => .dictionary ["ok"] [.bool b]
  | .error f => .dictionary ["error", "message"] [.text f.category.name, .text f.message]

/-- What later steps use of a result. -/
def Result.toValue : Result → Value
  | value v => v
  | verdicts answers =>
    .dictionary (answers.map fun a => a.1.sign) (answers.map fun a => verdictValue a.2)

abbrev Answer := Except Fault Result

def relations : List Relation :=
  [.order .lt, .order .le, .order .gt, .order .ge, .eq, .ne]

/-- The message of a failed match that is given no other. -/
def defaultMessage : Operand := .text "malformed data"

def defaultHint : Operand := .int 400

namespace Operation

def perform (m : Memory) : Operation → Answer
  | versionOfPair variant pair => do
    return .value (← Version.ofPair variant (← pair.eval m))
  | toPair subject => do
    return .value (← Version.toPair (← subject.eval m))
  | compareToPair subject pair => do
    let ours ← Version.components "compare_to_pair" (← subject.eval m)
    return .value (.int (← Version.compareToPair ours (← pair.eval m)))
  | evaluate subject => do
    return .value (← subject.eval m)
  | relate relation left right => do
    let x ← left.eval m
    let y ← right.eval m
    return .value (.bool (← Value.relate relation x y))
  | relateAll left right => do
    let x ← left.eval m
    let y ← right.eval m
    return .verdicts (relations.map fun r => (r, Value.relate r x y))
  | toBytes data => do
    return .value (.bytes .plain (← (← data.eval m).toBytes))
  | validate pattern data message errorClass => do
    let data ← data.eval m
    let message ← (message.getD defaultMessage).eval m
    return .value (← StrictHttp.validate pattern data message errorClass).toValue
  | makeError errorClass message hint => do
    let message ← message.eval m
    let hint ← (hint.getD defaultHint).eval m
    return .value (← errorClass.report message hint).toValue
  | read subject name => do
    return .value (← (← subject.eval m).readNamed name)
  | set subject name value => do
    let v ← subject.eval m
    let _ ← value.eval m
    .error (v.changeFault .set name)
  | delete subject name => do
    let v ← subject.eval m
    .error (v.changeFault .delete name)
  | literal subject => do
    return .value (.text (← (← subject.eval m).write Value.literal))
  | display subject => do
    return .value (.text (← (← subject.eval m).write Value.display))
  | iterate subject => do
    return .value (.list (← subject.items m))
  | code subject => do
    let _ ← (← subject.eval m).code .standard
    return .value (.bool true)
  | copy method subject => do
    return .value (← (← subject.eval m).copy method)
  | distinct items => do
    return .value (.list (← StrictHttp.distinct .standard (← items.items m)))
  | lookup items key => do
    let table ← Table.ofList .standard (← items.items m)
    match ← table.position? .standard (← key.eval m) with
    | some n => return .value (.int n)
    | none => return .value .null
  | contains key items => do
    let key ← key.eval m
    return .value (.bool (StrictHttp.contains (← items.items m) key))
  | sort descending items => do
    return .value (.list (← Value.sort descending (← items.items m)))
  | select extreme items => do
    return .value (← Value.select extreme (← items.items m))
  | catalogue => return .value Catalogue.current.toValue

end Operation

end StrictHttp
