import BeatNotation.Text.CodePoints

/-! Texts as they are shown: in columns of a fixed width, or in quotes on one line. The quote
mark is single unless the text holds single quotes and no double ones; the mark and the backslash
are escaped, and so is every character without a printed form, by a short name or its hexadecimal
code point. -/

namespace BeatNotation.Text

def padding (width : Nat) : String := String.ofList (List.replicate width ' ')

/-- The text followed by spaces up to a width; a longer text is left alone. -/
def padRight (width : Nat) (text : String) : String := text ++ padding (width - text.length)

/-- The mark that surrounds a quoted text. -/
def quoteMark (text : List Char) : Char :=
  if '\x27' ∈ text ∧ '\x22' ∉ text then '\x22' else '\x27'

/-- The code point in lowercase hexadecimal, padded to a width that the letter names. -/
def hexEscape (letter : Char) (width : Nat) (c : Char) : List Char :=
  let digits := Nat.toDigits 16 c.toNat
  '\\' :: letter :: (List.replicate (width - digits.length) '0' ++ digits)

def escape (mark c : Char) : List Char :=
  if c = mark ∨ c = '\\' then ['\\', c]
  else if c = '\n' then ['\\', 'n']
  else if c = '\r' then ['\\', 'r']
  else if c = '\t' then ['\\', 't']
  else if unprintable.contains c then
    if c.toNat < 0x100 then hexEscape 'x' 2 c
    else if c.toNat < 0x10000 then hexEscape 'u' 4 c
    else hexEscape 'U' 8 c
  else [c]

def quotedChars (text : List Char) : List Char :=
  let mark := quoteMark text
  mark :: (text.flatMap (escape mark) ++ [mark])

/-- A text in quotes, every character printable. -/
def quoted (text : String) : String := String.ofList (quotedChars text.toList)

/-- A bracketed list of items already written out. -/
def bracketed (items : List String) : String := "[" ++ String.intercalate ", " items ++ "]"

end BeatNotation.Text
