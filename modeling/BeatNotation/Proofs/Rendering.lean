import BeatNotation.Proofs.Decimal
import BeatNotation.Proofs.Sequence

/-! What the text of a diagnostic shows. A failure is placed where its reader has stopped, and its
text shows the line of the source that this place is in, with a caret under the column. So the
caret points at the character that is at fault, or right after a slash that wants a denominator. -/

namespace BeatNotation

open Alphabet

/-! ### The line of a cursor -/

namespace Cursor

variable {c : Cursor}

/-- The line has at the column what is ahead, unless the line ends there. -/
theorem Placed.getElem?_currentLine (h : c.Placed) :
    c.currentLine[c.position.column]? = c.ahead.head?.filter (· ≠ '\n') := by
  rw [h.column_eq, h.currentLine_eq, List.getElem?_append_right (Nat.le_refl _), Nat.sub_self]
  cases c.ahead with
  | nil => rfl
  | cons a rest => by_cases ha : a = '\n' <;> simp [ha, Option.filter_some]

/-- The line has before the column what is behind, unless the line begins there. -/
theorem Placed.getElem?_currentLine_pred (h : c.Placed) {a : Char} {before : List Char}
    (hb : c.behind = a :: before) (ha : a ≠ '\n') :
    0 < c.position.column ∧ c.currentLine[c.position.column - 1]? = some a := by
  have hrun : c.behind.takeWhile (· ≠ '\n') = a :: before.takeWhile (· ≠ '\n') := by
    rw [hb, List.takeWhile_cons_of_pos (by simpa using ha)]
  rw [h.column_eq, h.currentLine_eq, hrun]
  simp

theorem newline_not_mem_currentLine (c : Cursor) : '\n' ∉ c.currentLine := fun h => by
  simpa using List.all_eq_true.1 List.all_takeWhile _ h

end Cursor

/-! ### The lines of a diagnostic -/

namespace Diagnostic

/-- A text whose lines hold no newlines is cut into these lines again. -/
theorem lines_text {d : Diagnostic} (h : ∀ line ∈ d.lines, '\n' ∉ line.toList) :
    Text.lines d.text.toList = d.lines.map String.toList := by
  have hne : d.lines.map String.toList ≠ [] := by
    unfold Diagnostic.lines
    split <;> simp
  rw [text, String.toList_intercalate]
  refine Text.split_intercalate hne fun line hline => ?_
  obtain ⟨l, hl, rfl⟩ := List.mem_map.1 hline
  exact h l hl

/-- What the line shown has at the caret, for each thing that can be wrong there. -/
def PointsAt (d : Diagnostic) (shown : List Char) (caret : Nat) : Prop :=
  (d.category = .unexpectedCharacter ∧
    ∃ a, d.char? = some a.toString ∧ shown[caret]? = some a) ∨
  (d.category = .malformedNumber ∧ d.message = "missing numerator before '/'" ∧
    shown[caret]? = some '/') ∨
  (d.category = .malformedNumber ∧ d.message = "expected digits after '/'" ∧
    shown[caret - 1]? = some '/' ∧ ∀ a ∈ shown[caret]?, ¬ isDigit a)

/-- The diagnostic is about a column of a numbered line of the source, and its text shows this:
a headline, the line, a caret under the column, and a hint if a number is malformed. -/
structure Shows (d : Diagnostic) (file : String) (source : List Char) (number column : Nat)
    (line : List Char) : Prop where
  location : d.location? = some ⟨file, number, column⟩
  number_pos : 1 ≤ number
  getElem?_lines : (Text.lines source)[number - 1]? = some line
  column_le : column ≤ line.length
  hint : d.hint?.isSome ↔ d.category = .malformedNumber
  text : Text.lines d.text.toList =
    s!"{file}:{number}:{column}: error: {d.message}".toList ::
      (List.replicate 4 ' ' ++ line) :: (List.replicate (4 + column) ' ' ++ ['^']) ::
        d.hint?.toList.map fun hint => ("hint: " ++ hint).toList
  caret : d.PointsAt (List.replicate 4 ' ' ++ line) (4 + column)

end Diagnostic

namespace Cursor

variable {c : Cursor}

/-- The text of a lexical diagnostic: the headline, the line of the cursor, the caret under its
column, and the advice. -/
theorem lines_diagnose {d : Diagnostic} (hfile : '\n' ∉ c.file.toList)
    (hmessage : '\n' ∉ d.message.toList) (hadvice : ∀ line ∈ d.advice, '\n' ∉ line.toList)
    (hlexical : d.category.isA .lexical) :
    Text.lines (c.diagnose d).text.toList =
      s!"{c.file}:{c.position.line}:{c.position.column}: error: {d.message}".toList ::
        (List.replicate 4 ' ' ++ c.currentLine) ::
        (List.replicate (4 + c.position.column) ' ' ++ ['^']) :: d.advice.map String.toList := by
  have hdigit : ¬ isDigit '\n' := by decide
  let headline := s!"{c.file}:{c.position.line}:{c.position.column}: error: {d.message}"
  let shown := Text.padding 4 ++ String.ofList c.currentLine
  let caret := Text.padding (4 + c.position.column) ++ "^"
  have hheadline : '\n' ∉ headline.toList := by
    have hline := Numeral.not_mem_toString hdigit c.position.line
    have hcolumn := Numeral.not_mem_toString hdigit c.position.column
    show '\n' ∉ (c.file ++ ":" ++ toString c.position.line ++ ":" ++ toString c.position.column ++
      ": error: " ++ d.message).toList
    simp only [String.toList_append, List.mem_append, hfile, hline, hcolumn, hmessage]
    decide
  have hshown : shown.toList = List.replicate 4 ' ' ++ c.currentLine := by
    simp [shown, Text.padding]
  have hcaret : caret.toList = List.replicate (4 + c.position.column) ' ' ++ ['^'] := by
    simp [caret, Text.padding]
  have hlines : (c.diagnose d).lines = headline :: shown :: caret :: d.advice := by
    have hlexical' : (c.diagnose d).category.isA .lexical := hlexical
    rw [Diagnostic.lines, if_pos hlexical']
    rfl
  rw [Diagnostic.lines_text, hlines, List.map_cons, List.map_cons, List.map_cons, hshown, hcaret]
  intro line hline
  rw [hlines] at hline
  simp only [List.mem_cons] at hline
  rcases hline with rfl | rfl | rfl | hline
  · exact hheadline
  · simp [hshown, c.newline_not_mem_currentLine]
  · simp [hcaret]
  · exact hadvice line hline

end Cursor

/-! ### Each fault -/

namespace Fault

variable {f : Fault} {k : Category}

/-- What a diagnostic says of the fault, wherever that is. -/
def diagnostic (f : Fault) (k : Category) : Diagnostic where
  category := k
  message := f.message
  hint? := f.hint?
  char? := f.char?
  reader? := f.reader?

theorem diagnostic?_fail (h : f.category? = some k) (c : Cursor) :
    (c.fail f).diagnostic? = some (c.diagnose (f.diagnostic k)) := by
  have hk : (c.fail f).fault.category? = some k := h
  rw [Failure.diagnostic?, hk]
  rfl

theorem isA_lexical (h : f.category? = some k) : k.isA .lexical := by
  cases f <;> cases h <;> decide

theorem isSome_hint?_iff (h : f.category? = some k) :
    f.hint?.isSome ↔ k = .malformedNumber := by
  cases f <;> cases h <;> simp [hint?]

theorem advice_diagnostic (f : Fault) (k : Category) :
    (f.diagnostic k).advice = f.hint?.toList.map ("hint: " ++ ·) := by
  cases f <;> rfl

theorem newline_not_mem_advice (f : Fault) (k : Category) :
    ∀ line ∈ (f.diagnostic k).advice, '\n' ∉ line.toList := by
  rw [advice_diagnostic]
  cases f with
  | missingNumerator => decide
  | missingDenominator => decide
  | _ => simp [hint?]

theorem newline_not_mem_message (h : f.category? = some k) (hf : f ≠ .unexpectedCharacter '\n') :
    '\n' ∉ f.message.toList := by
  cases f with
  | unexpectedCharacter a =>
    have ha : a ≠ '\n' := fun ha => hf (ha ▸ rfl)
    show '\n' ∉ ("invalid character: " ++ a.toString).toList
    simp [ha.symm]
  | missingNumerator => decide
  | missingDenominator => decide
  | stalled r =>
    show '\n' ∉ (r.label ++ " reader consumed no input").toList
    cases r with
    | marker m => cases m <;> decide
    | _ => decide
  | numeralTooLong n => cases h

end Fault

namespace Cursor

variable {c : Cursor}

theorem getElem?_shown (c : Cursor) (i : Nat) :
    (List.replicate 4 ' ' ++ c.currentLine)[4 + i]? = c.currentLine[i]? := by
  rw [List.getElem?_append_right (Nat.le_add_right 4 i), List.length_replicate,
    Nat.add_sub_cancel_left]

/-- A failure of a reader shows the place where the reader has stopped. -/
theorem Placed.shows_fail (h : c.Placed) (hfile : '\n' ∉ c.file.toList) {f : Fault} {k : Category}
    (hk : f.category? = some k) (hf : f ≠ .unexpectedCharacter '\n')
    (hcaret : (f.diagnostic k).PointsAt (List.replicate 4 ' ' ++ c.currentLine)
      (4 + c.position.column)) :
    (c.diagnose (f.diagnostic k)).Shows c.file c.source c.position.line c.position.column
      c.currentLine where
  location := rfl
  number_pos := by
    rw [h.position, Position.reached]
    exact Nat.le_add_right 1 _
  getElem?_lines := h.getElem?_lines
  column_le := h.column_le
  hint := Fault.isSome_hint?_iff hk
  text := by
    have hlines := lines_diagnose (d := f.diagnostic k) hfile
      (Fault.newline_not_mem_message hk hf) (f.newline_not_mem_advice k) (Fault.isA_lexical hk)
    rw [f.advice_diagnostic, List.map_map] at hlines
    exact hlines
  caret := hcaret

theorem Placed.shows_unexpectedCharacter (h : c.Placed) (hfile : '\n' ∉ c.file.toList) {a : Char}
    {rest : List Char} (ha : c.ahead = a :: rest) (hn : a ≠ '\n') :
    (c.diagnose ((Fault.unexpectedCharacter a).diagnostic .unexpectedCharacter)).Shows c.file
      c.source c.position.line c.position.column c.currentLine := by
  refine h.shows_fail hfile rfl (by simpa using hn) (.inl ⟨rfl, a, rfl, ?_⟩)
  rw [getElem?_shown, h.getElem?_currentLine, ha]
  simp [Option.filter_some, hn]

theorem Placed.shows_missingNumerator (h : c.Placed) (hfile : '\n' ∉ c.file.toList)
    {rest : List Char} (ha : c.ahead = slash :: rest) :
    (c.diagnose (Fault.missingNumerator.diagnostic .malformedNumber)).Shows c.file
      c.source c.position.line c.position.column c.currentLine := by
  refine h.shows_fail hfile rfl nofun (.inr (.inl ⟨rfl, rfl, ?_⟩))
  rw [getElem?_shown, h.getElem?_currentLine, ha]
  rfl

theorem Placed.shows_missingDenominator (h : c.Placed) (hfile : '\n' ∉ c.file.toList)
    {before : List Char} (hb : c.behind = slash :: before) (hs : Stops isDigit c.ahead) :
    (c.diagnose (Fault.missingDenominator.diagnostic .malformedNumber)).Shows c.file
      c.source c.position.line c.position.column c.currentLine := by
  obtain ⟨hpos, hslash⟩ := h.getElem?_currentLine_pred hb (by decide)
  refine h.shows_fail hfile rfl nofun (.inr (.inr ⟨rfl, rfl, ?_, ?_⟩))
  · rw [Nat.add_sub_assoc hpos, getElem?_shown]
    exact hslash
  · rw [getElem?_shown, h.getElem?_currentLine]
    exact fun a ha => hs a (Option.mem_filter_iff.1 ha).1

end Cursor

/-- A failing read at a place of a text shows it. -/
theorem Lexer.shows_of_piece {s : Settings} {c : Cursor} {f : Fault} {k : Category}
    {spent : List Char} (h : s.lexer.piece c.ahead = .fault f spent)
    (hp : (c.pass spent.length).Placed) (hfile : '\n' ∉ c.file.toList)
    (hk : f.category? = some k) :
    ∃ number column line, ((c.pass spent.length).diagnose (f.diagnostic k)).Shows c.file c.source
      number column line := by
  have hh := Lexer.heads_piece s c.ahead
  rw [h] at hh
  have hfile' : '\n' ∉ (c.pass spent.length).file.toList := by rwa [Cursor.file_pass]
  rw [← Cursor.file_pass c spent.length, ← Cursor.source_pass c spent.length]
  cases f with
  | unexpectedCharacter a =>
    obtain ⟨rfl, hb, rest, ha, -⟩ := hh
    obtain rfl := Option.some.inj hk
    have hn : a ≠ '\n' := by
      rintro rfl
      exact hb (by decide)
    exact ⟨_, _, _, hp.shows_unexpectedCharacter hfile' ha hn⟩
  | missingNumerator =>
    obtain ⟨rfl, d, rest, ha, -⟩ := hh
    obtain rfl := Option.some.inj hk
    exact ⟨_, _, _, hp.shows_missingNumerator hfile' ha⟩
  | missingDenominator =>
    obtain ⟨ds, rest, rfl, -, ha, hst⟩ := hh
    obtain rfl := Option.some.inj hk
    have hbehind : (c.pass (ds ++ [slash]).length).behind = slash :: (ds.reverse ++ c.behind) := by
      rw [← List.reverse_reverse (c.pass _).behind, Cursor.behind_pass_length ha]
      simp
    have hahead := Cursor.ahead_pass_length ha
    exact ⟨_, _, _, hp.shows_missingDenominator hfile' hbehind (hahead ▸ hst)⟩
  | stalled r => exact hh.elim
  | numeralTooLong n => cases hk

namespace Session

variable {s : Settings} {file? : Option String} {source : List Char} {steps : List Step}

/-- A failure that a session reports stands at a place of the source where no piece can be cut. -/
theorem exists_fault_of_reported {f : Failure}
    (h : f ∈ ((Session.mk (.start s.lexer file? source) true).run steps).filterMap
      (·.result.failure?)) :
    ∃ (c : Cursor) (spent : List Char), s.lexer.piece c.ahead = .fault f.fault spent ∧
      c.file = s.fileFor file? ∧ c.source = source ∧
      (c.pass spent.length).Placed ∧ f = (c.pass spent.length).fail f.fault := by
  let start := (Scanner.start s.lexer file? source).cursor
  obtain ⟨n, hn⟩ := exists_read_of_reported h
  obtain ⟨c, spent, hpiece, hstop, hfail⟩ := Lexer.exists_of_read_failure hn
  obtain ⟨i, hi⟩ := s.lexer.exists_pass_reads start n
  obtain ⟨j, hj⟩ := s.lexer.exists_pass_read (s.lexer.reads start n).state
  have hpass : c.pass spent.length = start.pass (i + j) := by
    rw [Cursor.pass_add, ← hi, ← hj, hstop]
  refine ⟨c, spent, hpiece, ?_, ?_, ?_, hstop ▸ hfail⟩
  · rw [← Cursor.file_pass c spent.length, hpass, Cursor.file_pass]
    rfl
  · rw [← Cursor.source_pass c spent.length, hpass, Cursor.source_pass]
    rfl
  · rw [hpass]
    exact (Cursor.placed_start _ source).pass _

/-- The diagnostic of every failure that a session reports shows the place that it names. -/
theorem run_shows_failures (s : Settings) (file? : Option String) (source : List Char)
    (steps : List Step) :
    let session : Session := { scanner := .start s.lexer file? source }
    let file := s.fileFor file?
    '\n' ∉ file.toList → ∀ f ∈ (session.run steps).filterMap (·.result.failure?),
      ∀ d, f.diagnostic? = some d →
        ∃ number column line, d.Shows file source number column line := by
  intro session file hfile f hf d hd
  obtain ⟨c, spent, hpiece, hcfile, rfl, hplaced, hfail⟩ := exists_fault_of_reported hf
  obtain ⟨k, hk, -⟩ := Option.map_eq_some_iff.1 hd
  have hdiagnostic := Fault.diagnostic?_fail hk (c.pass spent.length)
  rw [← hfail, hd] at hdiagnostic
  have hfile' : '\n' ∉ c.file.toList := by rwa [hcfile]
  have hshows := Lexer.shows_of_piece hpiece hplaced hfile' hk
  rw [← Option.some.inj hdiagnostic, hcfile] at hshows
  exact hshows

/-- A slash without a denominator on the second line, after a comment. -/
theorem run_shows_failures_slashes :
    let source := ['/', '/', '\n', 'a', ' ', '4', '/', '/']
    let session : Session := { scanner := .start Settings.standard.lexer (some "a.loop") source }
    let f : Failure := ⟨.missingDenominator, ⟨"a.loop", 2, 4⟩, ['a', ' ', '4', '/', '/']⟩
    let d : Diagnostic :=
      { category := .malformedNumber
        message := "expected digits after '/'"
        location? := some ⟨"a.loop", 2, 4⟩
        hint? := some "write fractions as <digits>/<digits>, e.g. 4/4"
        sourceLine? := some "a 4//" }
    '\n' ∉ "a.loop".toList ∧
      f ∈ (session.run [.next, .drain]).filterMap (·.result.failure?) ∧
      f.diagnostic? = some d ∧
      (∃ number column line, d.Shows "a.loop" source number column line) ∧
      d.text = "a.loop:2:4: error: expected digits after '/'\n" ++
        "    a 4//\n" ++
        "        ^\n" ++
        "hint: write fractions as <digits>/<digits>, e.g. 4/4" := by
  intro source session f d
  have hfile : '\n' ∉ "a.loop".toList := by decide
  have hf : f ∈ (session.run [.next, .drain]).filterMap (·.result.failure?) := by decide +kernel
  have hd : f.diagnostic? = some d := by decide +kernel
  have hshows := run_shows_failures .standard (some "a.loop") source [.next, .drain] hfile f hf d hd
  exact ⟨hfile, hf, hd, hshows, by decide +kernel⟩

end Session

end BeatNotation
