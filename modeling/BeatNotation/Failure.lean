import BeatNotation.Cursor
import BeatNotation.Rule

/-! Failures: a fault, with the place and the line of the source where reading stopped.
A numeral that is too long is a limit of the conversion and not an error of the text,
so it has no diagnostic; every other failure has one. -/

namespace BeatNotation

structure Failure where
  fault : Fault
  location : Location
  sourceLine : List Char
deriving DecidableEq, Repr

/-- The failure of a reader that stopped at the cursor. -/
def Cursor.fail (c : Cursor) (f : Fault) : Failure := ⟨f, c.location, c.currentLine⟩

def Fault.category? : Fault → Option Category
  | .unexpectedCharacter _ => some .unexpectedCharacter
  | .missingNumerator | .missingDenominator => some .malformedNumber
  | .stalled _ => some .stalledReader
  | .numeralTooLong _ => none

/-- The character that a fault names. -/
def Fault.char? : Fault → Option String
  | .unexpectedCharacter c => some c.toString
  | _ => none

/-- The reader that a fault names. -/
def Fault.reader? : Fault → Option String
  | .stalled r => some r.label
  | _ => none

namespace Failure

def message (f : Failure) : String := f.fault.message

def diagnostic? (f : Failure) : Option Diagnostic :=
  f.fault.category?.map fun category =>
    { category := category
      message := f.message
      location? := some f.location
      hint? := f.fault.hint?
      sourceLine? := some (String.ofList f.sourceLine)
      char? := f.fault.char?
      reader? := f.fault.reader? }

/-- The diagnostic's text, or the bare message. -/
def text (f : Failure) : String := (f.diagnostic?.map Diagnostic.text).getD f.message

end Failure

end BeatNotation
