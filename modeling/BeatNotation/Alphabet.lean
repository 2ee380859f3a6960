/-! The fixed alphabet of the notation. Letters and digits are the ASCII ones. The
characters of the fixed lexical classes are reserved: no sigil may be one of them. -/

namespace BeatNotation.Alphabet

def letters : List Char :=
  ['a', 'b', 'c', 'd', 'e', 'f', 'g', 'h', 'i', 'j', 'k', 'l', 'm',
   'n', 'o', 'p', 'q', 'r', 's', 't', 'u', 'v', 'w', 'x', 'y', 'z',
   'A', 'B', 'C', 'D', 'E', 'F', 'G', 'H', 'I', 'J', 'K', 'L', 'M',
   'N', 'O', 'P', 'Q', 'R', 'S', 'T', 'U', 'V', 'W', 'X', 'Y', 'Z']

def digits : List Char := ['0', '1', '2', '3', '4', '5', '6', '7', '8', '9']

def alphanumerics : List Char := letters ++ digits

def punctuation : List Char := ['[', ']', '(', ')', ',']

def operators : List Char := ['=', '+']

/-- Blanks between lexemes. -/
def blanks : List Char := [' ', '\t', '\n', '\r']

/-- Divides the digits of a ratio; doubled, it opens a comment. -/
def slash : Char := '/'

/-- Every character that a fixed lexical class owns. -/
def reserved : List Char := alphanumerics ++ punctuation ++ operators ++ [slash] ++ blanks

def isLetter (c : Char) : Bool := c ∈ letters

def isDigit (c : Char) : Bool := c ∈ digits

def isAlphanumeric (c : Char) : Bool := c ∈ alphanumerics

def isBlank (c : Char) : Bool := c ∈ blanks

theorem isAlphanumeric_iff (c : Char) : isAlphanumeric c ↔ isLetter c ∨ isDigit c := by
  simp [isAlphanumeric, isLetter, isDigit, alphanumerics]

end BeatNotation.Alphabet
