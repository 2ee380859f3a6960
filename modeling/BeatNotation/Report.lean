import BeatNotation.Scanner

/-! A report on a song: its tokens, what each loop plays, and how a malformed line is
answered. Loops are found on the way through the tokens with one token of lookahead:
after the word `Loop` come a count, one more token, and then perhaps a bracketed body,
whose punctuation is left out. -/

namespace BeatNotation

/-- Why a report breaks off. -/
inductive ReportFault
  | lexical (f : Failure)
  /-- A loop at the end of the song, with no count. -/
  | missingCount
deriving DecidableEq, Repr

def ReportFault.message : ReportFault → String
  | lexical f => f.text
  | missingCount => "'NoneType' object has no attribute 'value'"

/-- The lines written, and why no more follow. -/
structure Report where
  lines : List String
  fault? : Option ReportFault := none
  remarks : List Remark := []

namespace Report

/-- The text written: every line is ended. -/
def text (r : Report) : String := String.join (r.lines.map (· ++ "\n"))

/-- One report after another, unless the first breaks off. -/
def followedBy (r s : Report) : Report :=
  match r.fault? with
  | some _ => r
  | none => ⟨r.lines ++ s.lines, s.fault?, r.remarks ++ s.remarks⟩

/-! ### Tokens -/

/-- A token's place, kind and value in columns. -/
def tokenLine (t : Token) : String :=
  let column := Text.padRight 3 (toString t.location.column)
  s!"  {t.location.line}:{column} {Text.padRight 12 t.kind.label} {t.value.display}"

def tokens (song : List Char) : Report :=
  match tokenize .standard (some "groove.loop") song with
  | (.ok ts, remarks) => ⟨"All tokens:" :: ts.map tokenLine, none, remarks⟩
  | (.error f, remarks) => ⟨["All tokens:"], some (.lexical f), remarks⟩

/-! ### Loops -/

def isLoopWord (t : Token) : Bool := t.kind = .keyword && t.value = .text "Loop"

/-- The values of the tokens up to a closing bracket or the end, punctuation left out. -/
def bracketed (s : Scanner) : Reply Scanner (Except Failure (List Value)) :=
  match _h : s.next with
  | ⟨.token t, after, remarks⟩ =>
    if t.value = .text "]" then ⟨.ok [], after, remarks⟩
    else
      let ⟨values, last, others⟩ := bracketed after
      let values := if t.kind = .punctuation then values else values.map (t.value :: ·)
      ⟨values, last, remarks ++ others⟩
  | ⟨.failure f, after, remarks⟩ => ⟨.error f, after, remarks⟩
  | ⟨.finish, after, remarks⟩ => ⟨.ok [], after, remarks⟩
termination_by s.remaining
decreasing_by
  have := Scanner.remaining_next_lt (s := s) (t := t) (by rw [_h])
  rwa [_h] at this

/-- What a loop plays: the bracketed body ahead, or nothing. -/
def body (s : Scanner) : Reply Scanner (Except Failure (List Value)) :=
  match s.peek with
  | ⟨.token t, ahead, remarks⟩ =>
    if t.value = .text "[" then
      let ⟨values, last, others⟩ := bracketed ahead.next.state
      ⟨values, last, remarks ++ others⟩
    else ⟨.ok [], ahead, remarks⟩
  | ⟨.failure f, ahead, remarks⟩ => ⟨.error f, ahead, remarks⟩
  | ⟨.finish, ahead, remarks⟩ => ⟨.ok [], ahead, remarks⟩

def loopLine (count : Value) (played : List Value) : String :=
  s!"  {count.display} x {Text.bracketed (played.map Value.inspect)}"

/-- The line for a loop whose first word has just been read. -/
def loop (s : Scanner) : Reply Scanner (Except ReportFault String) :=
  match s.next with
  | ⟨.failure f, after, remarks⟩ => ⟨.error (.lexical f), after, remarks⟩
  | ⟨.finish, after, remarks⟩ => ⟨.error .missingCount, after, remarks⟩
  | ⟨.token count, after, remarks⟩ =>
    match after.next with
    | ⟨.failure f, after, others⟩ => ⟨.error (.lexical f), after, remarks ++ others⟩
    | ⟨_, after, others⟩ =>
      let ⟨played, last, more⟩ := body after
      let line := (played.map (loopLine count.value)).mapError .lexical
      ⟨line, last, remarks ++ others ++ more⟩

theorem remaining_bracketed_le (s : Scanner) :
    (bracketed s).state.remaining ≤ s.remaining := by
  fun_induction bracketed s with
  | case1 s t after remarks h hv =>
    have := s.remaining_next_le
    rwa [h] at this
  | case2 s t after remarks h hv values last others hb values' ih =>
    have := s.remaining_next_le
    rw [h] at this
    rw [hb] at ih
    exact Nat.le_trans ih this
  | case3 s f after remarks h =>
    have := s.remaining_next_le
    rwa [h] at this
  | case4 s after remarks h =>
    have := s.remaining_next_le
    rwa [h] at this

theorem remaining_body_le (s : Scanner) : (body s).state.remaining ≤ s.remaining := by
  have hp := s.remaining_peek_le
  unfold body
  split
  · next t ahead remarks h =>
    rw [h] at hp
    split
    · exact Nat.le_trans (remaining_bracketed_le _) (Nat.le_trans ahead.remaining_next_le hp)
    · exact hp
  · next h => rwa [h] at hp
  · next h => rwa [h] at hp

theorem remaining_loop_le (s : Scanner) : (loop s).state.remaining ≤ s.remaining := by
  have hn := s.remaining_next_le
  unfold loop
  split
  · next h => rwa [h] at hn
  · next h => rwa [h] at hn
  · next count after remarks h =>
    rw [h] at hn
    have hm := after.remaining_next_le
    split
    · next h => rw [h] at hm; exact Nat.le_trans hm hn
    · next h => rw [h] at hm; exact Nat.le_trans (remaining_body_le _) (Nat.le_trans hm hn)

/-- A line for every loop that the scanner comes to. -/
def loops (s : Scanner) : Report :=
  match _h : s.next with
  | ⟨.token t, after, remarks⟩ =>
    if isLoopWord t then
      match _hl : loop after with
      | ⟨.ok line, last, others⟩ => followedBy ⟨[line], none, remarks ++ others⟩ (loops last)
      | ⟨.error fault, _, others⟩ => ⟨[], some fault, remarks ++ others⟩
    else followedBy ⟨[], none, remarks⟩ (loops after)
  | ⟨.failure f, _, remarks⟩ => ⟨[], some (.lexical f), remarks⟩
  | ⟨.finish, _, remarks⟩ => ⟨[], none, remarks⟩
termination_by s.remaining
decreasing_by
  all_goals
    have hn := Scanner.remaining_next_lt (s := s) (t := t) (by rw [_h])
    rw [_h] at hn
  · have hl := remaining_loop_le after
    rw [_hl] at hl
    exact Nat.lt_of_le_of_lt hl hn
  · exact hn

/-! ### The whole report -/

/-- How a slash without a denominator is answered. -/
def malformed : Report :=
  match tokenize .standard (some "broken.loop") "Loop 4//4 Times".toList with
  | (.ok _, remarks) => ⟨["", "Malformed input:"], none, remarks⟩
  | (.error f, remarks) => ⟨["", "Malformed input:", f.text], none, remarks⟩

/-- The report on a song. -/
def ofSong (song : List Char) : Report :=
  (tokens song).followedBy <|
    (followedBy ⟨["", "Loop bodies:"], none, []⟩
      (loops (.start { settings := .standard } none song))).followedBy malformed

/-- The song that is reported on unless another is given. -/
def standardSong : String :=
  "Title :groove\n" ++
  "@bpm = 120 // tempo\n" ++
  "$verse Loop 4 Times [ ^Am7, ^D9 ] %dorian &ff8800\n" ++
  "|x.x. ( :kick + :snare ) 7/8 Forever\n"

/-- Print the report on the standard song, with the remarks on the error channel. -/
def print : IO Unit := do
  let report := ofSong standardSong.toList
  for remark in report.remarks do
    IO.eprintln s!"{remark.channel}: {remark.message}"
  IO.print report.text

end Report

end BeatNotation
