import BeatNotation.Scanner

/-! Pieces. What a lexer does at a cursor is told by the text ahead alone, so it can be said
without the cursor: which piece is cut off the text, and that a read goes on from piece to piece.
A piece that is delivered or skipped is never empty, whatever the readers do. -/

namespace BeatNotation

open Alphabet

/-! ### Readings of a text -/

/-- The text that a reading takes up. -/
def Reading.text : Reading → List Char
  | lexeme l => l.text
  | skipped t => t
  | fault _ spent => spent

namespace Rule

/-- A whole number, or a numerator and denominator. A second slash is not read. -/
def readNumber (text : List Char) : Reading :=
  match text.takeWhile isDigit, text.dropWhile isDigit with
  | [], _ => .fault .missingNumerator []
  | digits, '/' :: rest =>
    match rest.takeWhile isDigit with
    | [] => .fault .missingDenominator (digits ++ [slash])
    | denominator => convert (.ratio digits denominator)
  | digits, _ => convert (.integer digits)

/-- What the rule's reader makes of a text that begins with `c`. -/
def read (c : Char) (rest : List Char) : Rule → Reading
  | comment => .skipped ((c :: rest).takeWhile (· ≠ '\n'))
  | name => .lexeme (.name c (rest.takeWhile isAlphanumeric))
  | marker k => .lexeme (.marker k c (rest.takeWhile (· ∈ k.body)))
  | punctuation => .lexeme (.punctuation c)
  | operator => .lexeme (.operator c)
  | number => readNumber (c :: rest)

variable {c : Cursor} {a : Char} {rest : List Char}

theorem text_convert (l : Lexeme) : (convert l).text = l.text := by
  unfold convert
  split <;> rfl

theorem readOneAt_eq (make : Char → Lexeme) (h : c.ahead = a :: rest) :
    readOneAt make c = (.lexeme (make a), c.pass 1) := by
  rw [readOneAt, Cursor.pass_succ, Cursor.consume_of_cons h]
  rfl

theorem readRunAt_eq (make : Char → List Char → Lexeme) (p : Char → Bool)
    (h : c.ahead = a :: rest) : readRunAt make p c =
      (.lexeme (make a (rest.takeWhile p)), c.pass (a :: rest.takeWhile p).length) := by
  have hrest : c.consume.2.ahead = rest := by rw [Cursor.ahead_consume, h, List.tail_cons]
  have hread := c.consume.2.readWhile_eq p
  rw [hrest] at hread
  rw [List.length_cons, Cursor.pass_succ, readRunAt]
  rw [Cursor.consume_of_cons h] at hread ⊢
  simp only [hread]

theorem readNumberAt_eq (c : Cursor) :
    readNumberAt c = (readNumber c.ahead, c.pass (readNumber c.ahead).text.length) := by
  obtain ⟨ds, us, hds, hus, hcut⟩ : ∃ ds us, c.ahead.takeWhile isDigit = ds ∧
      c.ahead.dropWhile isDigit = us ∧ c.ahead = ds ++ us :=
    ⟨_, _, rfl, rfl, List.takeWhile_append_dropWhile.symm⟩
  have hhere : (c.pass ds.length).ahead = us := by
    rw [Cursor.ahead_pass, hcut, List.drop_left]
  have hpeek : (c.pass ds.length).peek 0 = us.head? := by rw [Cursor.peek_zero, hhere]
  have hlater : (c.pass ds.length).consume.2.readWhile isDigit = (us.tail.takeWhile isDigit,
      c.pass (ds.length + (us.tail.takeWhile isDigit).length.succ)) := by
    rw [Cursor.readWhile_eq, Cursor.ahead_consume, hhere, Cursor.pass_add, Cursor.pass_succ]
  unfold readNumberAt readNumber
  simp only [c.readWhile_eq, hds, hus, hpeek, hlater]
  cases ds with
  | nil => rfl
  | cons d ds =>
    cases us with
    | nil =>
      simp [text_convert, Lexeme.text]
    | cons u us =>
      by_cases hu : u = slash
      · subst hu
        cases hes : us.takeWhile isDigit with
        | nil => simp [hes, slash, Reading.text]
        | cons e es =>
          simp [hes, slash, text_convert, Lexeme.text, Nat.add_right_comm, -Cursor.pass_succ]
      · have hother : ¬ u = '/' := hu
        simp [hu, hother, text_convert, Lexeme.text]

/-- A reader makes of the text ahead what is told by that text, and stops where this ends. -/
theorem readAt_eq (h : c.ahead = a :: rest) (r : Rule) :
    r.readAt c = (r.read a rest, c.pass (r.read a rest).text.length) := by
  cases r with
  | comment => rw [readAt, readCommentAt, Cursor.readWhile_eq, h]; rfl
  | name => exact readRunAt_eq _ _ h
  | marker k => exact readRunAt_eq _ _ h
  | punctuation => exact readOneAt_eq _ h
  | operator => exact readOneAt_eq _ h
  | number =>
    rw [read, ← h]
    exact readNumberAt_eq c

end Rule

/-! ### Pieces of a text -/

/-- What stands at the head of a text. -/
inductive Piece
  | blank (text : List Char)
  | comment (text : List Char)
  | lexeme (l : Lexeme)
  | fault (f : Fault) (spent : List Char)
  | finish
deriving DecidableEq, Repr

namespace Piece

/-- The text that the piece takes up. -/
def text : Piece → List Char
  | blank t | comment t => t
  | lexeme l => l.text
  | fault _ spent => spent
  | finish => []

/-- The piece that a reading makes; a reader that takes nothing is stalled. -/
def ofReading (r : Rule) : Reading → Piece
  | .fault f spent => fault f spent
  | .skipped t => if t.isEmpty then fault (.stalled r) [] else comment t
  | .lexeme l => if l.text.isEmpty then fault (.stalled r) [] else lexeme l

theorem text_ofReading_ne_nil {r : Rule} {reading : Reading}
    (h : ∀ f spent, ofReading r reading ≠ fault f spent) :
    (ofReading r reading).text ≠ [] := by
  cases reading with
  | fault f spent => exact absurd rfl (h f spent)
  | skipped t => cases t <;> simp_all [ofReading, text]
  | lexeme l =>
    simp only [ofReading] at h ⊢
    split at h
    · exact absurd rfl (h _ _)
    · simp_all [text]

end Piece

/-- The piece that a reading is when its reader has not stalled. -/
def Reading.piece : Reading → Piece
  | lexeme l => .lexeme l
  | skipped t => .comment t
  | fault f spent => .fault f spent

theorem Piece.ofReading_eq {r : Rule} {reading : Reading}
    (h : ∀ f spent, reading ≠ .fault f spent) : ofReading r reading =
      if reading.text.isEmpty then .fault (.stalled r) [] else reading.piece := by
  cases reading with
  | fault f spent => exact absurd rfl (h f spent)
  | _ => rfl

namespace Lexer

/-- What the rule's reader does, if it is in service. -/
def reading (x : Lexer) (r : Rule) (c : Char) (rest : List Char) : Reading :=
  if x.idle r then .skipped [] else r.read c rest

/-- The first rule that claims the place. -/
def rule? (x : Lexer) (c : Char) (next : Option Char) : Option Rule :=
  x.rules.find? (·.accepts x.settings.toConfiguration c next)

/-- The piece at the head of a text. -/
def piece (x : Lexer) : List Char → Piece
  | [] => .finish
  | c :: rest =>
    if isBlank c then .blank (c :: rest.takeWhile isBlank)
    else match x.rule? c rest.head? with
      | none => .fault (.unexpectedCharacter c) []
      | some r => .ofReading r (x.reading r c rest)

/-- Only a fault or the end of the text may take up nothing. -/
theorem text_piece_ne_nil {x : Lexer} {t : List Char}
    (hf : ∀ f spent, x.piece t ≠ .fault f spent) (he : x.piece t ≠ .finish) :
    (x.piece t).text ≠ [] := by
  cases t with
  | nil => exact absurd rfl he
  | cons c rest =>
    rw [piece] at hf ⊢
    split
    · simp [Piece.text]
    · simp only [*, Bool.false_eq_true, ↓reduceIte] at hf
      split
      · simp_all
      · simp only [*] at hf
        exact Piece.text_ofReading_ne_nil hf

theorem ne_nil_of_piece_ne_finish {x : Lexer} {t : List Char} (h : x.piece t ≠ .finish) :
    t ≠ [] := by
  rintro rfl
  exact h rfl

/-! ### A lexer at a cursor -/

variable {x : Lexer} {c stop : Cursor} {r : Rule} {a : Char} {rest : List Char}

theorem ruleAt?_eq (h : c.ahead = a :: rest) : x.ruleAt? c = x.rule? a rest.head? := by
  unfold ruleAt? rule? Rule.claims
  rw [Cursor.peek_zero, Cursor.peek_one_of_cons h, h]
  rfl

/-- A reading by a rule of the lexer is the piece that the text ahead begins with. -/
theorem ofReading_of_readAt {taken : Reading} (h : c.ahead = a :: rest)
    (hr : x.readAt r c = (taken, stop)) :
    .ofReading r (x.reading r a rest) = taken.piece ∧ stop = c.pass taken.text.length := by
  have hreading : (if x.idle r then (Reading.skipped [], c) else r.readAt c) =
      (x.reading r a rest, c.pass (x.reading r a rest).text.length) := by
    unfold reading
    split
    · rfl
    · exact Rule.readAt_eq h r
  have hmoved : ∀ t : List Char, (c.pass t.length).offset = c.offset ↔ t.isEmpty := by
    intro t
    rw [Cursor.offset_pass, h]
    cases t <;> simp
  rw [readAt, hreading] at hr
  split at hr
  · next f spent last heq =>
    obtain ⟨hf, rfl⟩ := Prod.mk.inj heq
    obtain ⟨rfl, rfl⟩ := Prod.mk.inj hr
    rw [hf]
    exact ⟨rfl, rfl⟩
  · next reading last hne heq =>
    obtain ⟨rfl, rfl⟩ := Prod.mk.inj heq
    rw [Piece.ofReading_eq hne]
    simp only [hmoved] at hr
    split at hr
    · next ht =>
      obtain ⟨rfl, rfl⟩ := Prod.mk.inj hr
      rw [if_pos ht, List.isEmpty_iff.1 ht]
      exact ⟨rfl, rfl⟩
    · next ht =>
      obtain ⟨rfl, rfl⟩ := Prod.mk.inj hr
      rw [if_neg ht]
      exact ⟨rfl, rfl⟩

/-- A read goes from piece to piece. -/
theorem read_eq (x : Lexer) (c : Cursor) : x.read c = match x.piece c.ahead with
    | .blank b => x.read (c.pass b.length)
    | .comment b => { x.read (c.pass b.length) with
        remarks := .skippedComment c.position b :: (x.read (c.pass b.length)).remarks }
    | .lexeme l => ⟨.token (l.token x.settings.keywords c.location), c.pass l.text.length, []⟩
    | .fault f spent => ⟨.failure ((c.pass spent.length).fail f), c.pass spent.length, []⟩
    | .finish => ⟨.finish, c, []⟩ := by
  cases h : c.ahead with
  | nil =>
    have hhere : (c.readWhile isBlank).2 = c := by
      rw [Cursor.readWhile_eq, h]
      rfl
    have hpeek : c.peek 0 = none := by rw [Cursor.peek_zero, h, List.head?_nil]
    rw [read, hhere, hpeek]
    rfl
  | cons a rest =>
    by_cases ha : isBlank a
    · have hblank : c.pass (a :: rest.takeWhile isBlank).length = (c.readWhile isBlank).2 := by
        rw [Cursor.readWhile_eq, h, List.takeWhile_cons_of_pos ha]
      rw [piece, if_pos ha]
      show x.read c = x.read (c.pass (a :: rest.takeWhile isBlank).length)
      -- The later read passes over what is left of the blanks, which is nothing.
      rw [hblank, read, read, Cursor.readWhile_readWhile]
    · have hhere : (c.readWhile isBlank).2 = c := by
        rw [Cursor.readWhile_eq, h, List.takeWhile_cons_of_neg ha]
        rfl
      have hpeek : c.peek 0 = some a := by rw [Cursor.peek_zero, h, List.head?_cons]
      rw [read, hhere, hpeek, piece, if_neg ha, ← ruleAt?_eq h]
      simp only
      cases x.ruleAt? c with
      | none => rfl
      | some r =>
        simp only
        split
        all_goals
          next hread =>
            obtain ⟨hp, rfl⟩ := ofReading_of_readAt h hread
            rw [hp]
            rfl

theorem read_of_blank {b : List Char} (h : x.piece c.ahead = .blank b) :
    x.read c = x.read (c.pass b.length) := by
  rw [read_eq, h]

theorem read_of_comment {b : List Char} (h : x.piece c.ahead = .comment b) :
    x.read c = { x.read (c.pass b.length) with
      remarks := .skippedComment c.position b :: (x.read (c.pass b.length)).remarks } := by
  rw [read_eq, h]

theorem read_of_lexeme {l : Lexeme} (h : x.piece c.ahead = .lexeme l) :
    x.read c = ⟨.token (l.token x.settings.keywords c.location), c.pass l.text.length, []⟩ := by
  rw [read_eq, h]

theorem read_of_fault {f : Fault} {spent : List Char} (h : x.piece c.ahead = .fault f spent) :
    x.read c =
      ⟨.failure ((c.pass spent.length).fail f), c.pass spent.length, []⟩ := by
  rw [read_eq, h]

theorem read_of_finish (h : x.piece c.ahead = .finish) : x.read c = ⟨.finish, c, []⟩ := by
  rw [read_eq, h]

/-- What holds of a cursor before each kind of piece, and of one before a gap if it holds after
the gap, holds of every cursor. -/
@[elab_as_elim]
theorem readInduction (x : Lexer) {motive : Cursor → Prop}
    (blank : ∀ c b, x.piece c.ahead = .blank b → motive (c.pass b.length) → motive c)
    (comment : ∀ c b, x.piece c.ahead = .comment b → motive (c.pass b.length) → motive c)
    (lexeme : ∀ c l, x.piece c.ahead = .lexeme l → motive c)
    (fault : ∀ c f spent, x.piece c.ahead = .fault f spent → motive c)
    (finish : ∀ c, x.piece c.ahead = .finish → motive c) (c : Cursor) : motive c := by
  induction hn : c.ahead.length using Nat.strongRecOn generalizing c with
  | ind n ih =>
    have hless : ∀ b : List Char, b ≠ [] → c.ahead ≠ [] →
        (c.pass b.length).ahead.length < n := fun b hb hc =>
      hn ▸ c.length_ahead_pass_lt (List.length_pos_iff.2 hb) hc
    have htext := text_piece_ne_nil (x := x) (t := c.ahead)
    have hc := ne_nil_of_piece_ne_finish (x := x) (t := c.ahead)
    cases hp : x.piece c.ahead with
    | blank b =>
      rw [hp] at htext hc
      exact blank c b hp (ih _ (hless b (htext (by simp) (by simp)) (hc (by simp))) _ rfl)
    | comment b =>
      rw [hp] at htext hc
      exact comment c b hp (ih _ (hless b (htext (by simp) (by simp)) (hc (by simp))) _ rfl)
    | lexeme l => exact lexeme c l hp
    | fault f spent => exact fault c f spent hp
    | finish => exact finish c hp

end Lexer

end BeatNotation
