/-! Places in a source text. Lines count from one and columns from zero; a newline
belongs to the line it ends. Locations name a source as well, and may lie anywhere. -/

namespace BeatNotation

/-- A place reached by reading a text from its start. -/
structure Position where
  line : Nat := 1
  column : Nat := 0
deriving DecidableEq, Repr

namespace Position

/-- The place after one more character. -/
def after (p : Position) (c : Char) : Position :=
  if c = '\n' then ⟨p.line + 1, 0⟩ else ⟨p.line, p.column + 1⟩

/-- The place after a stretch of text. -/
def advance (p : Position) (text : List Char) : Position := text.foldl after p

@[simp] theorem advance_nil (p : Position) : p.advance [] = p := rfl

@[simp] theorem advance_cons (p : Position) (c : Char) (text : List Char) :
    p.advance (c :: text) = (p.after c).advance text := rfl

theorem advance_append (p : Position) (s t : List Char) :
    p.advance (s ++ t) = (p.advance s).advance t := List.foldl_append

end Position

/-- A line and column of a named source. -/
structure Location where
  file : String
  line : Int
  column : Int
deriving DecidableEq, Repr

/-- File, line and column, separated by colons. -/
def Location.text (l : Location) : String := s!"{l.file}:{l.line}:{l.column}"

/-- A position within a named source. -/
def Position.within (p : Position) (file : String) : Location := ⟨file, p.line, p.column⟩

end BeatNotation
