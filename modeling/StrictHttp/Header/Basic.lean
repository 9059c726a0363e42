import StrictHttp.Grammar
import StrictHttp.Text.Quoted

/-!
# Header fields

A header field keeps its name as it was given and its value without outer blanks. Names are compared
in lower case, so `Header.field` is what equality and hashing see. The type itself admits any two
byte strings; `Header.WellFormed` is what construction guarantees.
-/

namespace StrictHttp

/-- Headers and versions come in a base variant and a derived one. The two hold the same data; they
differ in their displayed name and in which operand of a comparison is asked first. -/
inductive Variant where
  | base
  | derived
deriving DecidableEq

structure Header where
  variant : Variant
  /-- The name as it was given. -/
  name : Bytes
  value : Bytes
deriving DecidableEq

namespace Header

def field (h : Header) : Bytes := h.name.lower

@[simp] theorem field_mk (variant : Variant) (name value : Bytes) :
    (Header.mk variant name value).field = name.lower := rfl

structure WellFormed (h : Header) : Prop where
  name : Grammar.IsToken h.name
  value : Grammar.IsFieldValue h.value

def variantName : Variant → String
  | .base => "Header"
  | .derived => "SubHeader"

def literal (h : Header) : String :=
  variantName h.variant ++ "(field=" ++ h.field.quote ++ ", value=" ++ h.value.quote ++ ")"

end Header

end StrictHttp
