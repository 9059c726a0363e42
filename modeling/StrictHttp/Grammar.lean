import StrictHttp.Pattern

/-!
# The grammar of header fields

Field names are tokens. Field values are empty, or visible ASCII with blanks inside but not at the
ends; octets from 0x80 on are not allowed. Two small patterns with groups stand beside them: a
dotted pair of numerals and an optional second letter. `IsToken` and `IsFieldValue` say the same of
names and values without a pattern.
-/

namespace StrictHttp.Grammar

-- ---------------------------------------------------------------------------
-- Octet classes

def isDigit (b : UInt8) : Bool := 0x30 ≤ b && b ≤ 0x39

def isLetter (b : UInt8) : Bool := (0x41 ≤ b && b ≤ 0x5A) || (0x61 ≤ b && b ≤ 0x7A)

/-- The marks of a token: exclamation, hash, dollar, percent, ampersand, apostrophe, asterisk,
plus, hyphen, full stop, caret, underscore, grave accent, bar and tilde. -/
def tokenMarks : List UInt8 :=
  [0x21, 0x23, 0x24, 0x25, 0x26, 0x27, 0x2A, 0x2B, 0x2D, 0x2E, 0x5E, 0x5F, 0x60, 0x7C, 0x7E]

def isTokenOctet (b : UInt8) : Bool := isLetter b || isDigit b || tokenMarks.contains b

/-- The visible characters of ASCII, without the space. -/
def isVisible (b : UInt8) : Bool := 0x21 ≤ b && b ≤ 0x7E

-- ---------------------------------------------------------------------------
-- Names and values, by their octets

def IsToken (s : Bytes) : Prop := s ≠ [] ∧ ∀ b ∈ s, isTokenOctet b = true

/-- Visible octets and blanks, with no blank at either end. -/
def IsFieldValue (s : Bytes) : Prop :=
  (∀ b ∈ s, isVisible b = true ∨ Bytes.isBlank b = true) ∧
    (∀ b ∈ s.head?, Bytes.isBlank b = false) ∧ ∀ b ∈ s.getLast?, Bytes.isBlank b = false

-- ---------------------------------------------------------------------------
-- Patterns

def token : Pattern := .run isTokenOctet

def fieldName : Pattern := token

def fieldVisible : Pattern := .one isVisible

/-- Runs of visible octets with runs of blanks between them. -/
def fieldContent : Pattern :=
  .seq (.run isVisible) (.many (.seq (.run Bytes.isBlank) (.run isVisible)))

def fieldValue : Pattern := .maybe fieldContent

def fullStop : UInt8 := 0x2E

/-- Two decimal numerals with a full stop between them. -/
def dotted : Pattern :=
  .seq (.group "group1" (.run isDigit))
    (.seq (.one (· == fullStop)) (.group "group2" (.run isDigit)))

/-- The letter a, then perhaps the letter b. -/
def optionalPair : Pattern :=
  .seq (.group "a" (.one (· == 0x61))) (.maybe (.group "b" (.one (· == 0x62))))

end StrictHttp.Grammar
