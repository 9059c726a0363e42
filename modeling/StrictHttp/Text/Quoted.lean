import StrictHttp.Bytes
import StrictHttp.Text.Printable

/-!
# Quoted text

A quoted text stands between two marks: apostrophes, or quotation marks if it has apostrophes and
no quotation mark. Inside, the mark and the backslash follow a backslash, and each character that
is not printable is written by its number. Byte strings are quoted as the characters of their
octets, of which only those of ASCII count as printable, after the letter b. The guarded form of a
byte string puts a backslash before each apostrophe, whichever marks it stands between.
-/

namespace StrictHttp.Text

def apostrophe : Char := '\x27'

def quotationMark : Char := '\x22'

def backslash : Char := '\x5C'

-- ---------------------------------------------------------------------------
-- Numbered characters

/-- The last `width` hexadecimal digits of `n`, in lower case. -/
def hexDigits : (width n : Nat) → List Char
  | 0, _ => []
  | width + 1, n => hexDigits width (n / 16) ++ [Nat.digitChar (n % 16)]

/-- A character by its number, in two, four or eight digits, whichever is enough. -/
def numbered (c : Char) : List Char :=
  if c.toNat < 0x100 then backslash :: 'x' :: hexDigits 2 c.toNat
  else if c.toNat < 0x10000 then backslash :: 'u' :: hexDigits 4 c.toNat
  else backslash :: 'U' :: hexDigits 8 c.toNat

-- ---------------------------------------------------------------------------
-- Quoting

/-- A character inside a quoted text; of the two marks, `guarded` needs a backslash. -/
def escape (printable : Char → Bool) (guarded c : Char) : List Char :=
  if c = guarded ∨ c = backslash then [backslash, c]
  else if c = '\t' then [backslash, 't']
  else if c = '\n' then [backslash, 'n']
  else if c = '\r' then [backslash, 'r']
  else if printable c then [c]
  else numbered c

def markFor (text : List Char) : Char :=
  if text.contains apostrophe && !text.contains quotationMark then quotationMark else apostrophe

def enclose (mark : Char) (inner : List Char) : List Char := mark :: inner ++ [mark]

def quoteWith (printable : Char → Bool) (text : List Char) : List Char :=
  enclose (markFor text) (text.flatMap (escape printable (markFor text)))

def quoteGuarded (printable : Char → Bool) (text : List Char) : List Char :=
  enclose (markFor text) (text.flatMap (escape printable apostrophe))

def quote (s : String) : String := String.ofList (quoteWith isPrintable s.toList)

end StrictHttp.Text

namespace StrictHttp.Bytes

def quoteChars (s : Bytes) : List Char := 'b' :: Text.quoteWith Text.isPrintableAscii s.toChars

def quote (s : Bytes) : String := String.ofList s.quoteChars

def quoteGuarded (s : Bytes) : String :=
  String.ofList ('b' :: Text.quoteGuarded Text.isPrintableAscii s.toChars)

end StrictHttp.Bytes
