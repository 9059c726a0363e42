import StrictHttp.Value.Writing

/-!
# Exact matches and error reports

A byte string is validated against a pattern by a full match; a failed match is reported as an error
of the class and in the words that the caller asks for. An error can also be built by itself, and
then shows its text and the status that it suggests.
-/

namespace StrictHttp

/-- The groups of a pattern with what they took; a group may take no part in a match. -/
abbrev Groups := List (String × Option Bytes)

def Groups.toValue (groups : Groups) : Value :=
  .dictionary (groups.map Prod.fst) (groups.map fun group => group.2.elim .null (.bytes .plain))

/-- The groups of the pattern with what they took from the data. -/
def validate (p : Pattern) (data message : Value) (errorClass : ErrorClass) :
    Except Fault Groups :=
  match data with
  | .bytes _ s =>
    match p.read? s with
    | some groups => .ok groups
    | none => .error (errorClass.fault message)
  | .text _ => .error .textSubject
  | _ => .error (.noSubject data.kind)

structure ErrorReport where
  error : ConcreteError
  text : String
  hint : Value

def ConcreteError.isProtocol (e : ConcreteError) : Bool := e != .plainValue

def ErrorReport.toValue (r : ErrorReport) : Value :=
  .dictionary ["class", "str", "hint", "is_protocol_error", "is_invalid_header"]
    [.text r.error.name, .text r.text, r.hint, .bool r.error.isProtocol,
      .bool (r.error == .invalidHeader)]

def ErrorClass.report (errorClass : ErrorClass) (message hint : Value) :
    Except Fault ErrorReport :=
  match errorClass with
  | .anyProtocol => .error .abstractClass
  | .concrete error => do
    return ⟨error, ← message.write Value.display, hint⟩

end StrictHttp
