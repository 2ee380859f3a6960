import BeatNotation.Kind
import BeatNotation.Position
import BeatNotation.Text.Display

/-! Tokens and their values. A number's value is an integer or a ratio, and a ratio
is kept as written: `4/4` and `2/2` are different notation. -/

namespace BeatNotation

/-- What a token stands for. -/
inductive Value
  | text (s : String)
  | integer (n : Int)
  | ratio (numerator denominator : Int)
deriving DecidableEq, Repr

namespace Value

/-- The value as plain text. -/
def display : Value → String
  | text s => s
  | integer n => toString n
  | ratio a b => s!"{a}/{b}"

/-- The value with its shape visible: texts in quotes, the parts of a ratio named. -/
def inspect : Value → String
  | text s => Text.quoted s
  | integer n => toString n
  | ratio a b => s!"Ratio(numerator={a}, denominator={b})"

def isRatio : Value → Bool
  | ratio _ _ => true
  | _ => false

end Value

/-- A classified stretch of source text, at its first character. -/
structure Token where
  kind : Kind
  value : Value
  text : String
  location : Location
deriving DecidableEq, Repr

namespace Token

def isMarker (t : Token) : Bool := t.kind.isMarker

/-- A number written with a numerator and a denominator. -/
def isFraction (t : Token) : Bool := t.kind = .number && t.value.isRatio

/-- Kind, value and place on one line. -/
def inspect (t : Token) : String :=
  s!"Token({t.kind.name}, {t.value.inspect}, {t.location.line}:{t.location.column})"

end Token

/-- What is said of a label that no kind has. -/
def Kind.unknownLabelMessage (label : String) : String :=
  s!"{Text.quoted label} is not a valid TokenKind"

/-- The location with its parts named. -/
def Location.inspect (l : Location) : String :=
  s!"SourceLocation(filename={Text.quoted l.file}, line={l.line}, column={l.column})"

end BeatNotation
