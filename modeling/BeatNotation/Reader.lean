import BeatNotation.Cursor
import BeatNotation.Rule

/-! Readers at work. A rule peeks at the character ahead of a cursor and at most at one more,
and its reader then consumes what it takes. Whatever a reader makes of the text, all that it
does to the cursor is to pass over some of it. -/

namespace BeatNotation

open Alphabet

namespace Rule

/-- Whether the rule claims the place of the cursor. -/
def claims (x : Configuration) (c : Cursor) (r : Rule) : Bool :=
  (c.peek 0).any fun a => r.accepts x a (c.peek 1)

/-- Consume the character ahead. Readers are not asked at the end of the text. -/
def readOneAt (make : Char → Lexeme) (c : Cursor) : Reading × Cursor :=
  match c.consume with
  | (some a, stop) => (.lexeme (make a), stop)
  | (none, stop) => (.skipped [], stop)

/-- Consume the character ahead, and more while they have a property. -/
def readRunAt (make : Char → List Char → Lexeme) (p : Char → Bool) (c : Cursor) :
    Reading × Cursor :=
  match c.consume with
  | (some a, next) =>
    let (run, stop) := next.readWhile p
    (.lexeme (make a run), stop)
  | (none, stop) => (.skipped [], stop)

/-- Consume a comment, but not the newline after it. -/
def readCommentAt (c : Cursor) : Reading × Cursor :=
  let (text, stop) := c.readWhile (· ≠ '\n')
  (.skipped text, stop)

/-- Consume a whole number, or a numerator and denominator. A second slash is not read. -/
def readNumberAt (c : Cursor) : Reading × Cursor :=
  let (numerator, here) := c.readWhile isDigit
  if numerator = [] then (.fault .missingNumerator [], here)
  else if here.peek 0 ≠ some slash then (convert (.integer numerator), here)
  else
    let (denominator, stop) := here.consume.2.readWhile isDigit
    if denominator = [] then (.fault .missingDenominator (numerator ++ [slash]), stop)
    else (convert (.ratio numerator denominator), stop)

/-- What the rule's reader makes of the text ahead, and where it stops. -/
def readAt (c : Cursor) : Rule → Reading × Cursor
  | comment => readCommentAt c
  | name => readRunAt .name isAlphanumeric c
  | marker k => readRunAt (.marker k) (· ∈ k.body) c
  | punctuation => readOneAt .punctuation c
  | operator => readOneAt .operator c
  | number => readNumberAt c

/-! ### Where readers stop -/

theorem exists_pass_readOneAt (make : Char → Lexeme) (c : Cursor) :
    ∃ n, (readOneAt make c).2 = c.pass n := by
  refine ⟨1, ?_⟩
  rw [readOneAt]
  split <;> simp [*]

theorem exists_pass_readRunAt (make : Char → List Char → Lexeme) (p : Char → Bool) (c : Cursor) :
    ∃ n, (readRunAt make p c).2 = c.pass n := by
  unfold readRunAt
  split
  · next a next h =>
    obtain ⟨n, hn⟩ := next.exists_pass_readWhile p
    exact ⟨n + 1, by rw [Cursor.pass_succ, h, hn]⟩
  · next stop h => exact ⟨1, by rw [Cursor.pass_succ, h, Cursor.pass_zero]⟩

theorem exists_pass_readNumberAt (c : Cursor) : ∃ n, (readNumberAt c).2 = c.pass n := by
  obtain ⟨m, hm⟩ := c.exists_pass_readWhile isDigit
  obtain ⟨n, hn⟩ := (c.pass m).consume.2.exists_pass_readWhile isDigit
  unfold readNumberAt
  simp only [hm]
  split
  · exact ⟨m, rfl⟩
  · split
    · exact ⟨m, rfl⟩
    · have hlast : c.pass (m + (n + 1)) = ((c.pass m).consume.2.readWhile isDigit).2 := by
        rw [Cursor.pass_add, Cursor.pass_succ, hn]
      split <;> exact ⟨_, hlast.symm⟩

/-- A reader only passes over text. -/
theorem exists_pass_readAt (c : Cursor) (r : Rule) : ∃ n, (r.readAt c).2 = c.pass n := by
  cases r with
  | comment => exact c.exists_pass_readWhile _
  | name => exact exists_pass_readRunAt _ _ c
  | marker k => exact exists_pass_readRunAt _ _ c
  | punctuation => exact exists_pass_readOneAt _ c
  | operator => exact exists_pass_readOneAt _ c
  | number => exact exists_pass_readNumberAt c

end Rule

end BeatNotation
