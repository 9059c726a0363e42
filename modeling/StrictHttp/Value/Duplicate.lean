import StrictHttp.Header.Construction

/-!
# Copies

A copy of a header is built anew by the validating constructor. A shallow copy keeps the items of a
sequence or version as they are, a deep one copies them too, and so does one that is written to an
archive and read back. Views of other bytes have no copies, and early archives say so in words of
their own.
-/

namespace StrictHttp

inductive CopyMethod where
  | shallow
  | deep
  | archive (format : Nat)
deriving DecidableEq

/-- The fault of copying a value that has no copies. -/
def CopyMethod.refusal : CopyMethod → Kind → Fault
  | archive format, kind => if format < 2 then .notArchivable kind else .notCopyable kind
  | _, kind => .notCopyable kind

namespace Value

mutual
def deepCopy (method : CopyMethod) : Value → Except Fault Value
  | header h => h.rebuild.map header
  | bytes .view _ => .error (method.refusal (.bytes .view))
  | list items => (deepCopies method items).map list
  | tuple items => (deepCopies method items).map tuple
  | version variant major minor => do
    let a ← major.deepCopy method
    let b ← minor.deepCopy method
    return version variant a b
  | dictionary names values => (deepCopies method values).map (dictionary names)
  | value => .ok value
def deepCopies (method : CopyMethod) : List Value → Except Fault (List Value)
  | [] => .ok []
  | item :: items => do
    let a ← item.deepCopy method
    let rest ← deepCopies method items
    return a :: rest
end

def shallowCopy : Value → Except Fault Value
  | header h => h.rebuild.map header
  | bytes .view _ => .error (CopyMethod.shallow.refusal (.bytes .view))
  | value => .ok value

def copy : CopyMethod → Value → Except Fault Value
  | .shallow, value => value.shallowCopy
  | method, value => value.deepCopy method

end Value

end StrictHttp
