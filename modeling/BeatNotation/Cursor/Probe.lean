import BeatNotation.Cursor

/-! Probes of a cursor, one after another. Only consuming and reading move it; every
other probe leaves the cursor as it is. -/

namespace BeatNotation

inductive Probe
  | peek (distance : Int)
  | consume (times : Nat)
  | atEnd
  | readWhile (p : Char → Bool)
  | location
  | currentLine
  | diagnose (d : Diagnostic)

/-- What a probe shows. -/
inductive Finding
  | char (c : Option Char)
  | chars (cs : List (Option Char))
  | flag (b : Bool)
  | text (t : List Char)
  | location (l : Location)
  | diagnostic (d : Diagnostic)
deriving DecidableEq, Repr

namespace Cursor

/-- What a probe shows, and the cursor after it. -/
def probe (c : Cursor) : Probe → Finding × Cursor
  | .peek k => (.char (c.peek k), c)
  | .consume n =>
    let (cs, after) := c.consumeMany n
    (.chars cs, after)
  | .atEnd => (.flag c.atEnd, c)
  | .readWhile p =>
    let (t, after) := c.readWhile p
    (.text t, after)
  | .location => (.location c.location, c)
  | .currentLine => (.text c.currentLine, c)
  | .diagnose d => (.diagnostic (c.diagnose d), c)

/-- The findings of a sequence of probes, each with the cursor after it. -/
def probes (c : Cursor) : List Probe → List (Finding × Cursor)
  | [] => []
  | p :: ps =>
    let found := c.probe p
    found :: found.2.probes ps

end Cursor

end BeatNotation
