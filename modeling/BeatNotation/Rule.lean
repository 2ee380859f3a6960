import BeatNotation.Lexeme

/-! The lexical rules. A rule accepts a place in the text by its first character and
at most one more; its reader then takes a lexeme from there, skips a comment, or finds
a fault. -/

namespace BeatNotation

open Alphabet

inductive Rule
  | comment
  | name
  | marker (k : MarkerKind)
  | punctuation
  | operator
  | number
deriving DecidableEq, Repr

/-- Why no token could be read. -/
inductive Fault
  | unexpectedCharacter (c : Char)
  | missingNumerator
  | missingDenominator
  | stalled (r : Rule)
  | numeralTooLong (length : Nat)
deriving DecidableEq, Repr

/-- What a reader makes of the text ahead. -/
inductive Reading
  | lexeme (l : Lexeme)
  | skipped (text : List Char)
  | fault (f : Fault) (spent : List Char)
deriving DecidableEq, Repr

namespace Rule

/-- The rules in the order in which they are tried. -/
def priority : List Rule :=
  [marker .property, comment, name, marker .passage, marker .beat, marker .chord,
   marker .scale, marker .color, punctuation, operator, number]

def label : Rule → String
  | comment => "comment"
  | name => "identifier"
  | marker k => k.label
  | punctuation => "punctuation"
  | operator => "operator"
  | number => "number"

/-- Whether the rule claims a place, given the character there and the one after it. -/
def accepts (x : Configuration) (c : Char) (next : Option Char) : Rule → Bool
  | comment => c = slash && next = some slash
  | name => isLetter c || c ∈ x.sigils .name
  | marker k => c ∈ x.sigils (.marker k)
  | punctuation => c ∈ Alphabet.punctuation
  | operator => c ∈ operators
  | number => isDigit c || c = slash && next.any isDigit

/-- A lexeme, unless it holds a numeral that is too long to convert. -/
def convert (l : Lexeme) : Reading :=
  match l.excess? with
  | none => .lexeme l
  | some n => .fault (.numeralTooLong n) l.text

end Rule

namespace Fault

def message : Fault → String
  | unexpectedCharacter c => s!"invalid character: {c}"
  | missingNumerator => "missing numerator before '/'"
  | missingDenominator => "expected digits after '/'"
  | stalled r => s!"{r.label} reader consumed no input"
  | numeralTooLong n =>
    s!"Exceeds the limit ({Numeral.limit} digits) for integer string conversion: " ++
      s!"value has {n} digits; use sys.set_int_max_str_digits() to increase the limit"

def hint? : Fault → Option String
  | missingNumerator | missingDenominator =>
    some "write fractions as <digits>/<digits>, e.g. 4/4"
  | _ => none

end Fault

end BeatNotation
