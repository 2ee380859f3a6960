import BeatNotation.Position
import BeatNotation.Text.Display

/-! Diagnostics and their text. A diagnostic about a source names its place, shows
the line with a caret under the column, and may add a hint. Remarks are what is noted
on the way, besides the results. -/

namespace BeatNotation

/-- The kinds of trouble, as a tree: each but the first is a case of its parent. -/
inductive Category
  | any
  | lexical
  | unexpectedCharacter
  | malformedNumber
  | stalledReader
  | configuration
deriving DecidableEq, Repr

namespace Category

def all : List Category :=
  [any, lexical, unexpectedCharacter, malformedNumber, stalledReader, configuration]

def label : Category → String
  | any => "LoopNotesError"
  | lexical => "LexerError"
  | unexpectedCharacter => "UnexpectedCharacterError"
  | malformedNumber => "MalformedNumberError"
  | stalledReader => "UnterminatedClassReadError"
  | configuration => "LexerConfigError"

/-- The category and everything it is a case of, the nearest first. -/
def lineage : Category → List Category
  | any => [any]
  | lexical => [lexical, any]
  | configuration => [configuration, any]
  | c => [c, lexical, any]

/-- Whether one category is the other or a case of it. -/
def isA (c d : Category) : Bool := d ∈ c.lineage

end Category

/-- A report of trouble. Only a lexical one has a place in a source; `char` and
`reader` belong to the categories that name a character or a reader. -/
structure Diagnostic where
  category : Category
  message : String
  location? : Option Location := none
  hint? : Option String := none
  sourceLine? : Option String := none
  char? : Option String := none
  reader? : Option String := none
deriving DecidableEq, Repr

namespace Diagnostic

/-- The place and what is wrong there. -/
def headline (d : Diagnostic) : String :=
  match d.location? with
  | some l => s!"{l.text}: error: {d.message}"
  | none => s!"error: {d.message}"

/-- Width of the margin before a quoted source line. -/
def margin : Nat := 4

/-- The source line and a caret under the column. -/
def excerpt (d : Diagnostic) : List String :=
  match d.location?, d.sourceLine? with
  | some l, some line =>
    [Text.padding margin ++ line, Text.padding (margin + l.column).toNat ++ "^"]
  | _, _ => []

def advice (d : Diagnostic) : List String :=
  match d.hint? with
  | some hint => if hint = "" then [] else ["hint: " ++ hint]
  | none => []

/-- Headline, excerpt and advice of a lexical diagnostic; any other is its bare message. -/
def lines (d : Diagnostic) : List String :=
  if d.category.isA .lexical then d.headline :: d.excerpt ++ d.advice else [d.message]

/-- The full text. -/
def text (d : Diagnostic) : String := "\n".intercalate d.lines

end Diagnostic

/-! ### Remarks -/

inductive Remark
  | skippedComment (start : Position) (text : List Char)
  | environmentRead (fields : List String)
deriving DecidableEq, Repr

/-- The channel that a remark is made on. -/
def Remark.channel : Remark → String
  | skippedComment _ _ => "loopnotes.lexer"
  | environmentRead _ => "loopnotes.options"

def Remark.message : Remark → String
  | skippedComment p text =>
    s!"Skipped comment at {p.line}:{p.column}: {Text.quoted (String.ofList text)}"
  | environmentRead fields =>
    s!"Lexer options from environment: {Text.bracketed (fields.map Text.quoted)}"

end BeatNotation
