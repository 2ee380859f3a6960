import BeatNotation.Diagnostic

/-! A cursor in a source text: how many characters have been consumed, the place that it
stands at, and where the line of that place begins. Consuming a newline begins a line,
consuming anything else moves one column on. Only consuming moves a cursor, and never past
the end. What lies behind the cursor and ahead of it are views of the source. -/

namespace BeatNotation

structure Cursor where
  file : String
  source : List Char
  /-- How many characters have been consumed. -/
  offset : Nat := 0
  position : Position := {}
  /-- The offset of the first character of the line that the cursor stands in. -/
  lineStart : Nat := 0
deriving DecidableEq, Repr

namespace Cursor

variable {c : Cursor} {a : Char} {rest : List Char}

/-- The cursor before the first character. -/
def start (file : String) (source : List Char) : Cursor where
  file := file
  source := source

/-- The text already consumed, the nearest character first. -/
def behind (c : Cursor) : List Char := (c.source.take c.offset).reverse

/-- The text not yet consumed. -/
def ahead (c : Cursor) : List Char := c.source.drop c.offset

@[simp] theorem ahead_start (file : String) (source : List Char) :
    (start file source).ahead = source := rfl

/-! ### Single characters -/

/-- The character at a distance from the cursor, if the source reaches that far. -/
def peek (c : Cursor) (distance : Int) : Option Char :=
  let place := c.offset + distance
  if place < 0 then none else c.source[place.toNat]?

def atEnd (c : Cursor) : Bool := (c.peek 0).isNone

/-- The next character, and the cursor after it. -/
def consume (c : Cursor) : Option Char × Cursor :=
  match c.peek 0 with
  | none => (none, c)
  | some a => (some a, { c with
      offset := c.offset + 1
      position := c.position.after a
      lineStart := if a = '\n' then c.offset + 1 else c.lineStart })

/-- Forwards, a cursor peeks at what is ahead. -/
theorem peek_natCast (c : Cursor) (n : Nat) : c.peek n = c.ahead[n]? := by
  have hplace : ¬ (c.offset + n : Int) < 0 := by omega
  have hindex : (c.offset + n : Int).toNat = c.offset + n := by omega
  rw [peek, if_neg hplace, hindex, ahead, List.getElem?_drop]

theorem peek_zero (c : Cursor) : c.peek 0 = c.ahead.head? := by
  rw [List.head?_eq_getElem?]
  exact c.peek_natCast 0

theorem peek_one_of_cons (h : c.ahead = a :: rest) : c.peek 1 = rest.head? := by
  rw [List.head?_eq_getElem?, ← List.getElem?_cons_succ (a := a), ← h]
  exact c.peek_natCast 1

theorem consume_of_nil (h : c.ahead = []) : c.consume = (none, c) := by
  rw [consume, peek_zero, h]
  rfl

theorem consume_of_cons (h : c.ahead = a :: rest) : c.consume = (some a, { c with
    offset := c.offset + 1
    position := c.position.after a
    lineStart := if a = '\n' then c.offset + 1 else c.lineStart }) := by
  rw [consume, peek_zero, h]
  rfl

theorem ahead_consume (c : Cursor) : c.consume.2.ahead = c.ahead.tail := by
  cases h : c.ahead with
  | nil => rw [consume_of_nil h, h, List.tail_nil]
  | cons a rest =>
    rw [consume_of_cons h, ← h]
    exact List.tail_drop.symm

@[simp] theorem source_consume (c : Cursor) : c.consume.2.source = c.source := by
  unfold consume
  split <;> rfl

@[simp] theorem file_consume (c : Cursor) : c.consume.2.file = c.file := by
  unfold consume
  split <;> rfl

theorem behind_consume_of_cons (h : c.ahead = a :: rest) : c.consume.2.behind = a :: c.behind := by
  have ha : c.source[c.offset]? = some a := by
    rw [← List.head?_drop]
    exact congrArg List.head? h
  rw [consume_of_cons h]
  show (c.source.take (c.offset + 1)).reverse = _
  rw [List.take_add_one, ha, List.reverse_append]
  rfl

/-! ### Moving -/

/-- The cursor after so many more characters. -/
def pass (c : Cursor) : Nat → Cursor
  | 0 => c
  | n + 1 => c.consume.2.pass n

@[simp] theorem pass_zero (c : Cursor) : c.pass 0 = c := rfl

@[simp] theorem pass_succ (c : Cursor) (n : Nat) : c.pass (n + 1) = c.consume.2.pass n := rfl

theorem pass_add (c : Cursor) (m n : Nat) : c.pass (m + n) = (c.pass m).pass n := by
  induction m generalizing c with
  | zero => rw [Nat.zero_add, pass_zero]
  | succ m ih => rw [Nat.succ_add, pass_succ, pass_succ, ih]

@[simp] theorem file_pass (c : Cursor) (n : Nat) : (c.pass n).file = c.file := by
  induction n generalizing c with
  | zero => rfl
  | succ n ih => rw [pass_succ, ih, file_consume]

@[simp] theorem source_pass (c : Cursor) (n : Nat) : (c.pass n).source = c.source := by
  induction n generalizing c with
  | zero => rfl
  | succ n ih => rw [pass_succ, ih, source_consume]

@[simp] theorem ahead_pass (c : Cursor) (n : Nat) : (c.pass n).ahead = c.ahead.drop n := by
  induction n generalizing c with
  | zero => rfl
  | succ n ih => rw [pass_succ, ih, ahead_consume, List.drop_tail]

/-- A cursor at the end of its source stays where it is. -/
theorem pass_of_nil (h : c.ahead = []) (n : Nat) : c.pass n = c := by
  induction n with
  | zero => rfl
  | succ n ih => rw [pass_succ, consume_of_nil h, ih]

theorem behind_pass (c : Cursor) (n : Nat) :
    (c.pass n).behind = (c.ahead.take n).reverse ++ c.behind := by
  induction n generalizing c with
  | zero => rfl
  | succ n ih =>
    cases h : c.ahead with
    | nil => rw [pass_of_nil h, List.take_nil, List.reverse_nil, List.nil_append]
    | cons a rest =>
      rw [pass_succ, ih, ahead_consume, behind_consume_of_cons h, h, List.tail_cons,
        List.take_succ_cons, List.reverse_cons, List.append_assoc, List.singleton_append]

theorem position_pass (c : Cursor) (n : Nat) :
    (c.pass n).position = c.position.advance (c.ahead.take n) := by
  induction n generalizing c with
  | zero => rfl
  | succ n ih =>
    cases h : c.ahead with
    | nil => rw [pass_of_nil h, List.take_nil, Position.advance_nil]
    | cons a rest =>
      rw [pass_succ, ih, ahead_consume, h, List.tail_cons, List.take_succ_cons,
        Position.advance_cons, consume_of_cons h]

/-- A cursor moves on as far as it is told to, but not past the end. -/
theorem offset_pass (c : Cursor) (n : Nat) :
    (c.pass n).offset = c.offset + min n c.ahead.length := by
  induction n generalizing c with
  | zero => rw [pass_zero, Nat.zero_min, Nat.add_zero]
  | succ n ih =>
    cases h : c.ahead with
    | nil => rw [pass_of_nil h, List.length_nil, Nat.min_zero, Nat.add_zero]
    | cons a rest =>
      rw [pass_succ, ih, ahead_consume, h, List.tail_cons, List.length_cons, Nat.succ_min_succ,
        consume_of_cons h]
      exact Nat.add_right_comm _ _ _

/-- Passing over some of the text ahead leaves less of it. -/
theorem length_ahead_pass_lt (c : Cursor) {n : Nat} (hn : 0 < n) (hc : c.ahead ≠ []) :
    (c.pass n).ahead.length < c.ahead.length := by
  have := List.length_pos_iff.2 hc
  rw [ahead_pass, List.length_drop]
  omega

/-! ### Several characters -/

/-- Consume characters while the next one has a property. -/
def readWhile (c : Cursor) (p : Char → Bool) : List Char × Cursor :=
  if _h : (c.peek 0).any p then
    let (run, last) := c.consume.2.readWhile p
    (c.consume.1.toList ++ run, last)
  else ([], c)
termination_by c.ahead.length
decreasing_by
  refine c.length_ahead_pass_lt Nat.one_pos fun hnil => ?_
  rw [peek_zero, hnil] at _h
  cases _h

/-- Where a run has been read, no more of it is left. -/
theorem readWhile_readWhile (c : Cursor) (p : Char → Bool) :
    (c.readWhile p).2.readWhile p = ([], (c.readWhile p).2) := by
  fun_induction readWhile c p with
  | case1 c h run last hread ih => rwa [hread] at ih
  | case2 c h => rw [readWhile, dif_neg h]

/-- What is read is the longest run of characters with the property. -/
theorem readWhile_eq (c : Cursor) (p : Char → Bool) :
    c.readWhile p = (c.ahead.takeWhile p, c.pass (c.ahead.takeWhile p).length) := by
  fun_induction readWhile c p with
  | case1 c h run last hread ih =>
    cases hc : c.ahead with
    | nil =>
      rw [peek_zero, hc] at h
      cases h
    | cons a rest =>
      have ha : p a := by rwa [peek_zero, hc] at h
      rw [hread, ahead_consume, hc, List.tail_cons] at ih
      obtain ⟨rfl, rfl⟩ := Prod.mk.inj ih
      rw [List.takeWhile_cons_of_pos ha, List.length_cons, pass_succ, consume_of_cons hc]
      rfl
  | case2 c h =>
    have hstop : c.ahead.takeWhile p = [] := by
      cases hc : c.ahead with
      | nil => rfl
      | cons a rest =>
        rw [peek_zero, hc] at h
        exact List.takeWhile_cons_of_neg h
    rw [hstop]
    rfl

theorem exists_pass_readWhile (c : Cursor) (p : Char → Bool) :
    ∃ n, (c.readWhile p).2 = c.pass n :=
  ⟨_, by rw [readWhile_eq]⟩

theorem length_ahead_readWhile_le (c : Cursor) (p : Char → Bool) :
    (c.readWhile p).2.ahead.length ≤ c.ahead.length := by
  rw [readWhile_eq, ahead_pass, List.length_drop]
  exact Nat.sub_le _ _

/-- The results of so many attempts to consume, and the cursor after them. -/
def consumeMany (c : Cursor) : Nat → List (Option Char) × Cursor
  | 0 => ([], c)
  | n + 1 =>
    let (a, next) := c.consume
    let (rest, last) := next.consumeMany n
    (a :: rest, last)

/-- Attempts past the end bring nothing and leave the cursor there. -/
theorem consumeMany_eq (c : Cursor) (n : Nat) : c.consumeMany n =
    ((c.ahead.take n).map some ++ List.replicate (n - c.ahead.length) none, c.pass n) := by
  induction n generalizing c with
  | zero => simp [consumeMany]
  | succ n ih =>
    simp only [consumeMany, ih, ahead_consume, pass_succ]
    cases h : c.ahead with
    | nil => simp [consume_of_nil h, List.replicate_succ]
    | cons a rest => simp [consume_of_cons h]

/-! ### The place of the cursor -/

def location (c : Cursor) : Location := c.position.within c.file

/-- The line that the cursor stands in, without its newline. -/
def currentLine (c : Cursor) : List Char := (c.source.drop c.lineStart).takeWhile (· ≠ '\n')

/-- A diagnostic about the character ahead. -/
def diagnose (c : Cursor) (d : Diagnostic) : Diagnostic :=
  { d with location? := some c.location, sourceLine? := some (String.ofList c.currentLine) }

end Cursor

end BeatNotation
