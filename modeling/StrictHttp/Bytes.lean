/-!
# Byte strings

A byte string is a list of octets. Letter case is that of ASCII only, and blanks are the space and
the horizontal tab, so no other octet is changed by `lower` or removed by `trim`.
-/

namespace StrictHttp

abbrev Bytes := List UInt8

namespace Bytes

-- ---------------------------------------------------------------------------
-- Letter case

def isUpper (b : UInt8) : Bool := 0x41 ≤ b && b ≤ 0x5A

def lowerOctet (b : UInt8) : UInt8 := if isUpper b then b + 0x20 else b

def lower (s : Bytes) : Bytes := s.map lowerOctet

-- ---------------------------------------------------------------------------
-- Blanks

def space : UInt8 := 0x20

def tab : UInt8 := 0x09

def isBlank (b : UInt8) : Bool := b == space || b == tab

def trimStart (s : Bytes) : Bytes := s.dropWhile isBlank

def trimEnd (s : Bytes) : Bytes := (s.reverse.dropWhile isBlank).reverse

/-- Removes the longest runs of blanks at both ends; blanks inside stay. -/
def trim (s : Bytes) : Bytes := s.trimStart.trimEnd

-- ---------------------------------------------------------------------------
-- Text

/-- Each octet as the character of the same number, U+0000 to U+00FF. -/
def toChars (s : Bytes) : List Char := s.map fun b => Char.ofNat b.toNat

end Bytes

end StrictHttp
