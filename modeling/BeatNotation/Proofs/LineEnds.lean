import BeatNotation.Proofs.Reading

/-! The ends of lines. No lexeme, comment or fault reaches past the end of its line, and no
reader can tell a newline from the end of the text. So a line in a longer text is read as it
is alone, every place moved down to it. -/

namespace BeatNotation

open Alphabet

/-! ### Further down -/

/-- The same place so many lines further down. -/
def Position.down (i : Nat) (p : Position) : Position := ⟨p.line + i, p.column⟩

def Location.down (i : Nat) (l : Location) : Location := { l with line := l.line + i }

def Token.down (i : Nat) (t : Token) : Token := { t with location := t.location.down i }

def Failure.down (i : Nat) (f : Failure) : Failure := { f with location := f.location.down i }

def Remark.down (i : Nat) : Remark → Remark
  | skippedComment p t => skippedComment (p.down i) t
  | r => r

def Outcome.down (i : Nat) : Outcome → Outcome
  | token t => token (t.down i)
  | failure f => failure (f.down i)
  | finish => finish

theorem Position.after_down (i : Nat) (p : Position) (c : Char) :
    (p.down i).after c = (p.after c).down i := by
  by_cases hc : c = '\n'
  · simp only [after, hc, down, ↓reduceIte, mk.injEq, and_true]
    omega
  · simp [after, hc, down]

theorem Position.within_down (i : Nat) (p : Position) (file : String) :
    (p.down i).within file = (p.within file).down i := by
  simp [within, down, Location.down]

/-! ### The end of a line -/

theorem takeWhile_append_stops {p : Char → Bool} {rest : List Char} (h : Stops p rest)
    (t : List Char) : (t ++ rest).takeWhile p = t.takeWhile p := by
  induction t with
  | nil => exact takeWhile_of_stops h
  | cons c t ih => simp [List.takeWhile_cons, ih]

theorem dropWhile_append_stops {p : Char → Bool} {rest : List Char} (h : Stops p rest)
    (t : List Char) : (t ++ rest).dropWhile p = t.dropWhile p ++ rest := by
  induction t with
  | nil => exact dropWhile_run (by simp) h
  | cons c t ih =>
    by_cases hc : p c
    · rw [List.cons_append, List.dropWhile_cons_of_pos hc, List.dropWhile_cons_of_pos hc, ih]
    · rw [List.cons_append, List.dropWhile_cons_of_neg hc, List.dropWhile_cons_of_neg hc,
        List.cons_append]

namespace AtLineEnd

variable {rest : List Char}

/-- What stops at a newline stops at the end of a line. -/
theorem stops (h : AtLineEnd rest) {p : Char → Bool} (hp : p '\n' = false) : Stops p rest := by
  intro c hc hpc
  obtain rfl : c = '\n' := by simpa using h c hc
  rw [hp] at hpc
  cases hpc

theorem accepts (h : AtLineEnd rest) (x : Configuration) (c : Char) (r : Rule) :
    r.accepts x c rest.head? = r.accepts x c none := by
  cases hr : rest.head? with
  | none => rfl
  | some a =>
    obtain rfl : a = '\n' := by simpa using h a hr
    have hn : isDigit '\n' = false := by decide
    cases r <;> simp [Rule.accepts, slash, hn]

theorem readNumber (h : AtLineEnd rest) (t : List Char) :
    Rule.readNumber (t ++ rest) = Rule.readNumber t := by
  have hd : Stops isDigit rest := h.stops (by decide)
  rw [Rule.readNumber, Rule.readNumber, takeWhile_append_stops hd, dropWhile_append_stops hd]
  cases t.takeWhile isDigit with
  | nil => rfl
  | cons d ds =>
    cases t.dropWhile isDigit with
    | nil =>
      cases rest with
      | nil => rfl
      | cons a rest =>
        obtain rfl : a = '\n' := by simpa using h a rfl
        rfl
    | cons a u =>
      by_cases ha : a = '/'
      · subst ha
        simp only [List.cons_append, takeWhile_append_stops hd]
      · simp [ha]

theorem read (h : AtLineEnd rest) (r : Rule) (c : Char) (cs : List Char) :
    r.read c (cs ++ rest) = r.read c cs := by
  cases r with
  | comment => simp only [Rule.read, ← List.cons_append, takeWhile_append_stops h]
  | name =>
    have hs : Stops isAlphanumeric rest := h.stops (by decide)
    simp only [Rule.read, takeWhile_append_stops hs]
  | marker k =>
    have hs : Stops (· ∈ k.body) rest := h.stops (by cases k <;> decide)
    simp only [Rule.read, takeWhile_append_stops hs]
  | punctuation => rfl
  | operator => rfl
  | number => simp only [Rule.read, ← List.cons_append, h.readNumber]

/-- After anything but a blank, the end of a line is cut off like the end of the text. -/
theorem piece (h : AtLineEnd rest) (x : Lexer) {c : Char} (hc : ¬ isBlank c) (cs : List Char) :
    x.piece (c :: cs ++ rest) = x.piece (c :: cs) := by
  have hrule : x.rule? c (cs ++ rest).head? = x.rule? c cs.head? := by
    cases cs with
    | nil => simp only [Lexer.rule?, List.nil_append, h.accepts, List.head?_nil]
    | cons a cs => rfl
  rw [List.cons_append, Lexer.piece, Lexer.piece, if_neg hc, if_neg hc, hrule]
  cases x.rule? c cs.head? with
  | none => rfl
  | some r => simp only [Lexer.reading, h.read]

end AtLineEnd

/-! ### A line in its text -/

/-- The cursor `whole` is in line `i` of a longer text where `line` is in that line alone.
The line ends where `rest` begins. -/
structure Continues (i : Nat) (rest : List Char) (line whole : Cursor) : Prop where
  file : whole.file = line.file
  inLine : '\n' ∉ line.ahead
  ahead : whole.ahead = line.ahead ++ rest
  position : whole.position = line.position.down i
  fromStart : whole.source.drop whole.lineStart = line.source.drop line.lineStart ++ rest

namespace Continues

variable {i : Nat} {rest : List Char} {line whole : Cursor} {s : Settings}

theorem pass (h : Continues i rest line whole) {n : Nat} (hn : n ≤ line.ahead.length) :
    Continues i rest (line.pass n) (whole.pass n) := by
  induction n generalizing line whole with
  | zero => exact h
  | succ n ih =>
    obtain ⟨a, as, ha⟩ := List.exists_cons_of_length_pos (Nat.lt_of_lt_of_le (Nat.succ_pos n) hn)
    have hw : whole.ahead = a :: (as ++ rest) := by rw [h.ahead, ha, List.cons_append]
    have hi := h.inLine
    rw [ha] at hi
    have hstay : a ≠ '\n' := fun e => hi (e ▸ List.mem_cons_self)
    apply ih
    · constructor
      · rw [Cursor.file_consume, Cursor.file_consume, h.file]
      · rw [Cursor.ahead_consume, ha]
        exact fun m => hi (List.mem_cons_of_mem _ m)
      · rw [Cursor.ahead_consume, Cursor.ahead_consume, ha, hw]
        rfl
      · rw [Cursor.consume_of_cons ha, Cursor.consume_of_cons hw, h.position, Position.after_down]
      · rw [Cursor.consume_of_cons ha, Cursor.consume_of_cons hw, if_neg hstay, if_neg hstay]
        exact h.fromStart
    · rw [Cursor.ahead_consume, ha, List.tail_cons]
      rw [ha, List.length_cons] at hn
      omega

theorem location (h : Continues i rest line whole) : whole.location = line.location.down i := by
  rw [Cursor.location, Cursor.location, h.position, h.file, Position.within_down]

theorem currentLine (h : Continues i rest line whole) (he : AtLineEnd rest) :
    whole.currentLine = line.currentLine := by
  rw [Cursor.currentLine, Cursor.currentLine, h.fromStart, takeWhile_append_stops he]

theorem fail (h : Continues i rest line whole) (he : AtLineEnd rest) (f : Fault) :
    whole.fail f = (line.fail f).down i := by
  rw [Cursor.fail, Cursor.fail, h.location, h.currentLine he]
  rfl

/-- A piece other than a gap is cut off the whole text as it is off its line. -/
theorem piece (h : Continues i rest line whole) (he : AtLineEnd rest) {p : Piece}
    (hp : s.lexer.piece line.ahead = p) (hb : ∀ b, p ≠ .blank b) (hf : p ≠ .finish) :
    s.lexer.piece whole.ahead = p := by
  rw [h.ahead]
  cases ha : line.ahead with
  | nil =>
    rw [ha] at hp
    exact absurd hp.symm hf
  | cons c cs =>
    rw [ha] at hp
    have hc : ¬ isBlank c := by
      intro hc
      rw [Lexer.piece, if_pos hc] at hp
      exact hb _ hp.symm
    rw [he.piece s.lexer hc, hp]

/-- A read of the line and one of the whole text come to the same, or else the line is
finished and the read of the whole text goes on after it. -/
def ReadsAlike (x : Lexer) (i : Nat) (line whole : Cursor) : Prop :=
  (x.read line).result = .finish ∧
      x.read whole = { x.read (whole.pass line.ahead.length) with
        remarks := (x.read line).remarks.map (·.down i) ++
          (x.read (whole.pass line.ahead.length)).remarks } ∨
    (x.read line).result ≠ .finish ∧
      (x.read whole).result = (x.read line).result.down i ∧
      (x.read whole).remarks = (x.read line).remarks.map (·.down i) ∧
      ∃ n ≤ line.ahead.length,
        (x.read line).state = line.pass n ∧ (x.read whole).state = whole.pass n

/-- Reads that begin with the same gap are alike if they are alike after it. -/
theorem ReadsAlike.skip {x : Lexer} {k : Nat} (remarks : List Remark)
    (hk : k ≤ line.ahead.length)
    (hl : x.read line = { x.read (line.pass k) with
      remarks := remarks ++ (x.read (line.pass k)).remarks })
    (hw : x.read whole = { x.read (whole.pass k) with
      remarks := remarks.map (·.down i) ++ (x.read (whole.pass k)).remarks })
    (h : ReadsAlike x i (line.pass k) (whole.pass k)) : ReadsAlike x i line whole := by
  rcases h with ⟨hr, he⟩ | ⟨hr, hres, hrem, n, hn, hsl, hsw⟩
  · left
    have hlen : k + (line.pass k).ahead.length = line.ahead.length := by
      rw [Cursor.ahead_pass, List.length_drop]
      omega
    rw [← Cursor.pass_add, hlen] at he
    rw [hl, hw]
    refine ⟨hr, ?_⟩
    rw [he]
    simp [List.append_assoc]
  · right
    rw [Cursor.ahead_pass, List.length_drop] at hn
    rw [hl, hw]
    refine ⟨hr, hres, ?_, k + n, by omega, ?_, ?_⟩
    · rw [hrem, List.map_append]
    · rw [hsl, Cursor.pass_add]
    · rw [hsw, Cursor.pass_add]

theorem read (h : Continues i rest line whole) (he : AtLineEnd rest) :
    ReadsAlike s.lexer i line whole := by
  induction line using Lexer.readInduction s.lexer generalizing whole with
  | blank line b hp ih =>
    have hle : b.length ≤ line.ahead.length := Lexer.length_text_le hp
    have hh := Lexer.heads_piece s line.ahead
    rw [hp] at hh
    obtain ⟨-, hb, u, hu⟩ := hh
    have ha : whole.ahead = b ++ (u ++ rest) := by rw [h.ahead, hu, List.append_assoc]
    have hl : s.lexer.read line = s.lexer.read (line.pass b.length) := Lexer.read_of_blank hp
    have hw : s.lexer.read whole = s.lexer.read (whole.pass b.length) := Lexer.read_blanks hb ha
    exact .skip [] hle hl hw (ih (h.pass hle))
  | comment line b hp ih =>
    have hle : b.length ≤ line.ahead.length := Lexer.length_text_le hp
    have hl := Lexer.read_of_comment hp
    have hw := Lexer.read_of_comment (h.piece he hp (by simp) (by simp))
    rw [h.position] at hw
    exact .skip [.skippedComment line.position b] hle hl hw (ih (h.pass hle))
  | lexeme line l hp =>
    have hle : l.text.length ≤ line.ahead.length := Lexer.length_text_le hp
    have hw := Lexer.read_of_lexeme (h.piece he hp (by simp) (by simp))
    rw [h.location] at hw
    right
    rw [Lexer.read_of_lexeme hp, hw]
    exact ⟨by simp, rfl, rfl, l.text.length, hle, rfl, rfl⟩
  | fault line f spent hp =>
    have hle : spent.length ≤ line.ahead.length := Lexer.length_text_le hp
    have hw := Lexer.read_of_fault (h.piece he hp (by simp) (by simp))
    rw [(h.pass hle).fail he] at hw
    right
    rw [Lexer.read_of_fault hp, hw]
    exact ⟨by simp, rfl, rfl, spent.length, hle, rfl, rfl⟩
  | finish line hp =>
    have hh := Lexer.heads_piece s line.ahead
    rw [hp] at hh
    have hend : line.ahead = [] := hh
    left
    rw [Lexer.read_of_finish hp, hend]
    exact ⟨rfl, rfl⟩

end Continues

end BeatNotation
