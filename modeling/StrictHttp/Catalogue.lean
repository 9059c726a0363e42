import StrictHttp.Value.Basic

/-!
# The catalogue

What callers are offered: the public names in alphabetical order, and the release.
-/

namespace StrictHttp

structure Catalogue where
  names : List String
  release : String

def Catalogue.current : Catalogue where
  names :=
    ["HTTP_0_9", "HTTP_1_0", "HTTP_1_1", "Header", "HttpVersion", "InvalidHeader", "ProtocolError"]
  release := "0.1.0"

def Catalogue.toValue (c : Catalogue) : Value :=
  .dictionary ["all", "version"] [.list (c.names.map .text), .text c.release]

end StrictHttp
