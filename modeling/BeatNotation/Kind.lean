import BeatNotation.Alphabet

/-! Token kinds. Six of them are markers, each opened by a sigil of its own and
continued by the characters of its body; `MarkerKind.all` is their order of precedence. -/

namespace BeatNotation

open Alphabet

/-- The notation markers: a piece's properties and passages, and what is played in them. -/
inductive MarkerKind
  | property
  | passage
  | beat
  | chord
  | scale
  | color
deriving DecidableEq, Repr

namespace MarkerKind

def all : List MarkerKind := [property, passage, beat, chord, scale, color]

def label : MarkerKind → String
  | property => "meta"
  | passage => "section"
  | beat => "beat"
  | chord => "chord"
  | scale => "scale"
  | color => "color"

/-- The characters that may follow the sigil. -/
def body : MarkerKind → List Char
  | property | passage | scale => alphanumerics ++ ['-', '_']
  | beat => ['x', 'X', '.', '-']
  | chord => alphanumerics ++ ['#']
  | color => alphanumerics

theorem mem_all (k : MarkerKind) : k ∈ all := by cases k <;> decide

end MarkerKind

/-- The lexical classes of tokens. -/
inductive Kind
  | keyword
  | identifier
  | punctuation
  | operator
  | number
  | marker (k : MarkerKind)
deriving DecidableEq, Repr

namespace Kind

def all : List Kind :=
  [keyword, identifier, punctuation, operator, number] ++ MarkerKind.all.map marker

def label : Kind → String
  | keyword => "keyword"
  | identifier => "identifier"
  | punctuation => "punctuation"
  | operator => "operator"
  | number => "number"
  | marker k => k.label

/-- The label in capitals. -/
def name (k : Kind) : String := k.label.toUpper

def ofLabel? (s : String) : Option Kind := all.find? (·.label = s)

def isMarker : Kind → Bool
  | marker _ => true
  | _ => false

theorem mem_all (k : Kind) : k ∈ all := by
  cases k with
  | marker k => simp [all, MarkerKind.mem_all]
  | _ => simp [all]

end Kind

end BeatNotation
