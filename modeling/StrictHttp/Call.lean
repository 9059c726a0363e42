import StrictHttp.Header.Construction

/-!
# Calls

Headers and versions are made by calls with positional arguments. A call with another number of
arguments than its signature has parameters is a fault before any of them is looked at.
-/

namespace StrictHttp

/-- The callables that make a header or a version. -/
inductive Call where
  | header
  | headerOfBytes
  | headerOfLine
  | version
deriving DecidableEq

namespace Call

def signature : Call → Signature
  | header => ⟨"Header.__init__", ["name", "value"]⟩
  | headerOfBytes => ⟨"Header.from_bytes", ["name", "value"]⟩
  | headerOfLine => ⟨"Header.parse", ["line"]⟩
  | version => ⟨"HttpVersion.__new__", ["major", "minor"]⟩

def make (call : Call) (variant : Variant) (arguments : List Value) : Except Fault Value :=
  match call, arguments with
  | header, [name, value] => (Header.make variant name value).map .header
  | headerOfBytes, [name, value] => (Header.make variant name value).map .header
  | headerOfLine, [line] => (Header.parse variant line).map .header
  | version, [major, minor] => .ok (.version variant major minor)
  | _, _ => .error (.arity call.signature arguments.length)

end Call

end StrictHttp
