import StrictHttp.Relation
import StrictHttp.Value.Literal

/-!
# Faults

Every way in which an operation can fail is a cause with what its message needs. `Fault.message` is
the wording, `Fault.category` the kind of error that a caller can tell apart, `Fault.hint` the
status that a server might answer with, and `Fault.record` the log record, which only a rejected
header has.
-/

namespace StrictHttp

-- ---------------------------------------------------------------------------
-- Rejected headers

inductive Reason where
  | noColon
  | illegalName
  | illegalValue
deriving DecidableEq

/-- A header refused by the grammar, with the bytes at fault: the whole line, the name as it was
given, or the trimmed value. -/
structure Rejection where
  reason : Reason
  data : Bytes
deriving DecidableEq

namespace Reason

def message : Reason → String
  | noColon => "missing colon in header line"
  | illegalName => "illegal header name"
  | illegalValue => "illegal header value"

/-- How the log names the reason. -/
def label : Reason → String
  | noColon => "no colon"
  | illegalName => "illegal header name"
  | illegalValue => "illegal header value"

end Reason

def Rejection.record (r : Rejection) : String :=
  "rejecting header: " ++ r.reason.label ++ ": " ++ r.data.quote

/-- The part of a header that a caller supplies. -/
inductive Part where
  | name
  | value
  | line
deriving DecidableEq

def Part.label : Part → String
  | name => "name"
  | value => "value"
  | line => "line"

-- ---------------------------------------------------------------------------
-- Error classes

/-- The classes of error that have instances: a caller of a match can ask for any of them. -/
inductive ConcreteError where
  | invalidHeader
  /-- A class of protocol errors that a caller has added, by its name. -/
  | otherProtocol (name : String := "OtherError")
  | plainValue
deriving DecidableEq

def ConcreteError.name : ConcreteError → String
  | .invalidHeader => "InvalidHeader"
  | .otherProtocol name => name
  | .plainValue => "ValueError"

/-- An error class; the general class of protocol errors has no instances of its own. -/
inductive ErrorClass where
  | anyProtocol
  | concrete (error : ConcreteError)
deriving DecidableEq

-- ---------------------------------------------------------------------------
-- Calls

/-- A callable with a receiver and the parameters after it. -/
structure Signature where
  name : String
  parameters : List String

namespace Signature

def listed : List String → String
  | [] => ""
  | [a] => a
  | [a, b] => a ++ " and " ++ b
  | names => ", ".intercalate names.dropLast ++ ", and " ++ names.getLast?.getD ""

/-- Of too many arguments, both counts include the receiver; of too few, the missing ones are
named. -/
def mismatch (s : Signature) (given : Nat) : String :=
  if s.parameters.length < given then
    s.name ++ "() takes " ++ (s.parameters.length + 1).repr ++ " positional arguments but " ++
      (given + 1).repr ++ " were given"
  else
    let missing := (s.parameters.drop given).map fun p => "'" ++ p ++ "'"
    s.name ++ "() missing " ++ missing.length.repr ++ " required positional argument" ++
      (if missing.length = 1 then "" else "s") ++ ": " ++ listed missing

end Signature

-- ---------------------------------------------------------------------------
-- Faults

inductive Extreme where
  | max
  | min
deriving DecidableEq

def Extreme.label : Extreme → String
  | max => "max"
  | min => "min"

/-- The two ways to change an attribute. -/
inductive Change where
  | set
  | delete
deriving DecidableEq

def Change.label : Change → String
  | set => "set"
  | delete => "delete"

inductive Fault where
  /-- The first run of characters outside ASCII, and its position. -/
  | nonAscii (start : Nat) (run : List Char)
  | bareInteger
  | octetRange
  | notInteger (kind : Kind)
  | noBytes (kind : Kind)
  | nonAsciiHeader (part : Part)
  | rejected (rejection : Rejection)
  /-- A failed match, reported as the error and in the words that the caller asked for. -/
  | noMatch (error : ConcreteError) (message : Value)
  /-- An instance asked of the general class of protocol errors. -/
  | abstractClass
  | textSubject
  | noSubject (kind : Kind)
  /-- Of what is no pair the literal is shown. -/
  | notPair (literal : String)
  /-- An integer with more digits than its numeral may have. -/
  | longNumeral
  | unordered (relation : OrderRelation) (left right : Kind)
  | unhashable (kind : Kind)
  | notIterable (kind : Kind)
  | noAttribute (kind : Kind) (name : String)
  | immutableHeader
  | fixedComponent (change : Change)
  | nothingToSelect (extreme : Extreme)
  | arity (signature : Signature) (given : Nat)
  | notCopyable (kind : Kind)
  /-- A value that the early archive formats cannot hold. -/
  | notArchivable (kind : Kind)
  | failedStep

namespace Fault

/-- What a caller can catch a fault as. -/
inductive Category where
  | type
  | value
  | encoding
  | attribute
  | session
  | invalidHeader
  | otherProtocol (name : String)
deriving DecidableEq

def Category.name : Category → String
  | .type => "TypeError"
  | .value => "ValueError"
  | .encoding => "UnicodeEncodeError"
  | .attribute => "AttributeError"
  | .session => "DriverError"
  | .invalidHeader => ConcreteError.invalidHeader.name
  | .otherProtocol name => (ConcreteError.otherProtocol name).name

def category : Fault → Category
  | nonAscii .. => .encoding
  | octetRange | nothingToSelect _ | longNumeral => .value
  | nonAsciiHeader _ | rejected _ => .invalidHeader
  | noMatch .invalidHeader _ => .invalidHeader
  | noMatch (.otherProtocol name) _ => .otherProtocol name
  | noMatch .plainValue _ => .value
  | noAttribute .. | immutableHeader | fixedComponent _ => .attribute
  | failedStep => .session
  | _ => .type

def nonAsciiMessage (start : Nat) (run : List Char) : String :=
  let offender :=
    match run with
    | [c] => " '" ++ String.ofList (Text.numbered c) ++ "' in position " ++ start.repr
    | _ => "s in position " ++ start.repr ++ "-" ++ (start + run.length - 1).repr
  "'ascii' codec can't encode character" ++ offender ++ ": ordinal not in range(128)"

def message : Fault → String
  | nonAscii start run => nonAsciiMessage start run
  | bareInteger => "expected bytes-like object, not int"
  | octetRange => "bytes must be in range(0, 256)"
  | notInteger kind => "'" ++ kind.name ++ "' object cannot be interpreted as an integer"
  | noBytes kind => "cannot convert '" ++ kind.name ++ "' object to bytes"
  | nonAsciiHeader part => "non-ascii characters in header " ++ part.label
  | rejected r => r.reason.message
  | noMatch _ message => message.display
  | abstractClass => "tried to directly instantiate ProtocolError"
  | textSubject => "cannot use a bytes pattern on a string-like object"
  | noSubject kind => "expected string or bytes-like object, got '" ++ kind.name ++ "'"
  | notPair literal => "expected a (major, minor) tuple, not " ++ literal
  | longNumeral =>
    "Exceeds the limit (" ++ digitLimit.repr ++ " digits) for integer string conversion; " ++
      "use sys.set_int_max_str_digits() to increase the limit"
  | unordered relation left right =>
    "'" ++ relation.sign ++ "' not supported between instances of '" ++ left.name ++ "' and '" ++
      right.name ++ "'"
  | unhashable kind => "unhashable type: '" ++ kind.name ++ "'"
  | notIterable kind => "'" ++ kind.name ++ "' object is not iterable"
  | noAttribute kind name => "'" ++ kind.name ++ "' object has no attribute '" ++ name ++ "'"
  | immutableHeader => "Header objects are immutable"
  | fixedComponent change => "can't " ++ change.label ++ " attribute"
  | nothingToSelect extreme => extreme.label ++ "() arg is an empty sequence"
  | arity signature given => signature.mismatch given
  | notCopyable kind => "cannot pickle " ++ kind.name ++ " objects"
  | notArchivable kind => "cannot pickle '" ++ kind.name ++ "' object"
  | failedStep => "reference to a failed step"

/-- Errors of the protocol suggest the status 400. -/
def hint (f : Fault) : Option Int :=
  match f.category with
  | .invalidHeader | .otherProtocol _ => some 400
  | _ => none

def record : Fault → Option String
  | rejected r => some r.record
  | _ => none

end Fault

/-- The fault of raising an error class with a message. -/
def ErrorClass.fault : ErrorClass → Value → Fault
  | anyProtocol, _ => .abstractClass
  | concrete error, message => .noMatch error message

end StrictHttp
