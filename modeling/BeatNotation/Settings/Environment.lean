import BeatNotation.Diagnostic
import BeatNotation.Settings.Request
import BeatNotation.Text.Split

/-! Settings taken from environment variables. A variable that is absent or empty
leaves its part of the configuration standard. Keywords are separated by commas, the
space around each is dropped, and blank items are no words; sigils stand as they are. -/

namespace BeatNotation

/-- The values of the variables that are set. -/
abbrev Environment := String → Option String

/-- A part of the configuration that a variable can set. -/
inductive Field
  | keywords
  | sigils (g : SigilGroup)
deriving DecidableEq, Repr

namespace Field

def all : List Field := keywords :: SigilGroup.all.map sigils

def label : Field → String
  | keywords => "keywords"
  | sigils g => g.label ++ "_sigils"

/-- What every variable's name begins with. -/
def variablePrefix : String := "LOOPNOTES_"

/-- The variable that sets the field. -/
def variableName (f : Field) : String := variablePrefix ++ f.label.toUpper

end Field

namespace Environment

/-- The field's value, if its variable holds any text. -/
def value? (e : Environment) (f : Field) : Option String :=
  (e f.variableName).filter (· ≠ "")

/-- The fields with a value. -/
def given (e : Environment) : List Field := Field.all.filter fun f => (e.value? f).isSome

/-- The words of a comma-separated list. -/
def wordsOf (text : String) : List String :=
  (((Text.split ',' text.toList).map Text.trim).filter (· ≠ [])).map String.ofList

/-- The configuration that the environment asks for. -/
def request (e : Environment) : Request where
  keywords? := (e.value? .keywords).map (.words ∘ wordsOf)
  sigils? g := (e.value? (.sigils g)).map String.toList

/-- The labels of the given fields in ascending order. -/
def givenLabels (e : Environment) : List String :=
  (Vocabulary.ofList (e.given.map Field.label)).words

/-- The settings that the environment asks for, and a remark on the fields it gives. -/
def settings (e : Environment) : Except Violation Settings × List Remark :=
  (e.request.settings, if e.given.isEmpty then [] else [.environmentRead e.givenLabels])

end Environment

end BeatNotation
