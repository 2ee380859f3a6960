import BeatNotation.Settings
import BeatNotation.Token

/-! Lexemes: the stretches of text that become tokens. A lexeme holds its own text;
its kind depends on the settings only in whether a name is a keyword. Its numerals may have
leading zeros, which count towards the greatest length that can be converted. -/

namespace BeatNotation

/-! ### Numerals -/

namespace Numeral

/-- The greatest number of digits in a numeral that is converted to a number. -/
def limit : Nat := 4300

/-- The number that a single digit writes. -/
def digit (c : Char) : Nat := c.toNat - '0'.toNat

/-- The number that a run of digits writes. -/
def value (digits : List Char) : Nat := digits.foldl (fun n c => 10 * n + digit c) 0

/-- The length of a run of digits, if that is over the limit. -/
def excess? (digits : List Char) : Option Nat :=
  if limit < digits.length then some digits.length else none

theorem value_append_singleton (digits : List Char) (c : Char) :
    value (digits ++ [c]) = 10 * value digits + digit c := by
  simp [value]

end Numeral

/-! ### Lexemes -/

inductive Lexeme
  | name (first : Char) (rest : List Char)
  | marker (kind : MarkerKind) (sigil : Char) (body : List Char)
  | punctuation (c : Char)
  | operator (c : Char)
  | integer (digits : List Char)
  | ratio (numerator denominator : List Char)
deriving DecidableEq, Repr

namespace Lexeme

/-- The text as it stands in the source. -/
def text : Lexeme → List Char
  | name c cs => c :: cs
  | marker _ c cs => c :: cs
  | punctuation c => [c]
  | operator c => [c]
  | integer ds => ds
  | ratio ds es => ds ++ Alphabet.slash :: es

def kind (keywords : Vocabulary) : Lexeme → Kind
  | name c cs => if String.ofList (c :: cs) ∈ keywords then .keyword else .identifier
  | marker k _ _ => .marker k
  | punctuation _ => .punctuation
  | operator _ => .operator
  | integer _ | ratio _ _ => .number

/-- The number written, or else the text. -/
def value : Lexeme → Value
  | integer ds => .integer (Numeral.value ds)
  | ratio ds es => .ratio (Numeral.value ds) (Numeral.value es)
  | l => .text (String.ofList l.text)

/-- The length of the first numeral that is too long to convert. -/
def excess? : Lexeme → Option Nat
  | integer ds => Numeral.excess? ds
  | ratio ds es => (Numeral.excess? ds).or (Numeral.excess? es)
  | _ => none

/-- The token that a lexeme becomes at a place. -/
def token (keywords : Vocabulary) (location : Location) (l : Lexeme) : Token where
  kind := l.kind keywords
  value := l.value
  text := String.ofList l.text
  location := location

end Lexeme

end BeatNotation
