import BeatNotation.Failure
import BeatNotation.Text.Split

/-! Places by counting. The place that a text leads to has one line for every newline and
one column for every character after the last of them. Consuming keeps a cursor at the place
that its text behind leads to, and what it remembers as the start of its line where that line
begins. -/

namespace BeatNotation

namespace Position

/-- The place that a text leads to: its newlines, and its characters after the last newline. -/
def reached (text : List Char) : Position :=
  ⟨1 + text.count '\n', (text.reverse.takeWhile (· ≠ '\n')).length⟩

theorem reached_append_singleton (text : List Char) (c : Char) :
    reached (text ++ [c]) = (reached text).after c := by
  by_cases hc : c = '\n'
  · subst hc
    simp [reached, after, List.count_append]
    omega
  · simp [reached, after, List.count_append, hc]

theorem advance_eq_reached (text : List Char) : ({} : Position).advance text = reached text := by
  rw [← List.reverse_reverse text]
  induction text.reverse with
  | nil => rfl
  | cons c behind ih =>
    rw [List.reverse_cons, advance_append, ih, reached_append_singleton]
    rfl

end Position

/-! ### Lines by number -/

namespace Text

/-- How much of a text comes before its last line. -/
def lineStart (text : List Char) : Nat := (text.reverse.dropWhile (· ≠ '\n')).length

theorem lineStart_append_singleton (text : List Char) (a : Char) :
    lineStart (text ++ [a]) = if a = '\n' then text.length + 1 else lineStart text := by
  rw [lineStart, List.reverse_append, List.reverse_singleton, List.singleton_append]
  split
  · next ha => rw [ha, List.dropWhile_cons_of_neg (by simp), List.length_cons, List.length_reverse]
  · next ha => rw [List.dropWhile_cons_of_pos (by simpa using ha), lineStart]

theorem split_append (separator : Char) (s t : List Char) :
    split separator (s ++ separator :: t) = split separator s ++ split separator t := by
  induction s with
  | nil => rw [List.nil_append, split_cons_separator, split_nil, List.singleton_append]
  | cons c s ih =>
    by_cases hc : c = separator
    · rw [hc, List.cons_append, split_cons_separator, split_cons_separator, ih, List.cons_append]
    · obtain ⟨piece, others, hs⟩ := List.exists_cons_of_ne_nil (split_ne_nil separator s)
      rw [hs, List.cons_append] at ih
      rw [List.cons_append, split_cons_of_ne hc ih, split_cons_of_ne hc hs, List.cons_append]

theorem length_split (separator : Char) (t : List Char) :
    (split separator t).length = t.count separator + 1 := by
  induction t with
  | nil => rfl
  | cons c t ih =>
    by_cases hc : c = separator
    · rw [hc, split_cons_separator, List.length_cons, ih, List.count_cons_self]
    · obtain ⟨piece, others, hs⟩ := List.exists_cons_of_ne_nil (split_ne_nil separator t)
      rw [hs] at ih
      rw [split_cons_of_ne hc hs, List.count_cons_of_ne hc]
      exact ih

/-- A text begins with a line, after which it ends or has a newline. -/
theorem exists_line (t : List Char) : ∃ line rest, t = line ++ rest ∧ '\n' ∉ line ∧
    t.takeWhile (· ≠ '\n') = line ∧ (rest = [] ∨ ∃ u, rest = '\n' :: u) := by
  refine ⟨_, _, List.takeWhile_append_dropWhile.symm, fun h => ?_, rfl, ?_⟩
  · simpa using List.all_eq_true.1 List.all_takeWhile _ h
  · have hnot := List.head?_dropWhile_not (· ≠ '\n') t
    cases hd : t.dropWhile (· ≠ '\n') with
    | nil => exact .inl rfl
    | cons a u =>
      rw [hd] at hnot
      obtain rfl : a = '\n' := by simpa using hnot
      exact .inr ⟨u, rfl⟩

/-- The first line of a text goes up to its first newline. -/
theorem head?_lines {u : List Char} (hu : '\n' ∉ u) (t : List Char) :
    (lines (u ++ t)).head? = some (u ++ t.takeWhile (· ≠ '\n')) := by
  obtain ⟨line, rest, ht, hline, htake, hrest⟩ := exists_line t
  have hrun : '\n' ∉ u ++ line := fun h => (List.mem_append.1 h).elim hu hline
  rw [htake, ht, ← List.append_assoc]
  rcases hrest with rfl | ⟨v, rfl⟩
  · rw [List.append_nil, lines, split_of_not_mem hrun, List.head?_cons]
  · rw [lines, split_append_separator hrun, List.head?_cons]

/-- The line of a text that has such a number, where the first is number one. -/
def lineNumbered (text : List Char) (n : Int) : List Char := ((lines text)[(n - 1).toNat]?).getD []

end Text

namespace Cursor

/-- The line that the place after so many characters is in. -/
def lineAt (source : List Char) (n : Nat) : List Char :=
  ((source.take n).reverse.takeWhile (· ≠ '\n')).reverse ++ (source.drop n).takeWhile (· ≠ '\n')

theorem take_source (c : Cursor) : c.source.take c.offset = c.behind.reverse :=
  (List.reverse_reverse _).symm

theorem source_eq (c : Cursor) : c.source = c.behind.reverse ++ c.ahead := by
  rw [← take_source]
  exact (List.take_append_drop _ _).symm

/-- The cursor stands where the text behind it leads to, in the last line of that. -/
structure Placed (c : Cursor) : Prop where
  offset_le : c.offset ≤ c.source.length
  position : c.position = .reached c.behind.reverse
  lineStart : c.lineStart = Text.lineStart c.behind.reverse

theorem placed_start (file : String) (source : List Char) : (start file source).Placed where
  offset_le := Nat.zero_le _
  position := rfl
  lineStart := rfl

namespace Placed

variable {c : Cursor}

theorem offset_add_length_ahead (h : c.Placed) : c.offset + c.ahead.length = c.source.length := by
  rw [ahead, List.length_drop]
  exact Nat.add_sub_of_le h.offset_le

theorem length_behind (h : c.Placed) : c.behind.length = c.offset := by
  rw [behind, List.length_reverse, List.length_take_of_le h.offset_le]

theorem consume (h : c.Placed) : c.consume.2.Placed := by
  cases hc : c.ahead with
  | nil => rwa [consume_of_nil hc]
  | cons a rest =>
    have hbehind : c.consume.2.behind.reverse = c.behind.reverse ++ [a] := by
      rw [behind_consume_of_cons hc, List.reverse_cons]
    have hlength := h.offset_add_length_ahead
    rw [hc, List.length_cons] at hlength
    constructor
    · rw [source_consume, consume_of_cons hc, ← hlength]
      exact Nat.add_le_add_left (Nat.le_add_left 1 _) _
    · rw [hbehind, Position.reached_append_singleton, ← h.position, consume_of_cons hc]
    · rw [hbehind, Text.lineStart_append_singleton, ← h.lineStart, List.length_reverse,
        h.length_behind, consume_of_cons hc]

theorem pass (h : c.Placed) (n : Nat) : (c.pass n).Placed := by
  induction n generalizing c with
  | zero => exact h
  | succ n ih => exact ih h.consume

/-- The line of the cursor begins with what is behind it, up to the last newline. -/
theorem drop_lineStart (h : c.Placed) :
    c.source.drop c.lineStart = (c.behind.takeWhile (· ≠ '\n')).reverse ++ c.ahead := by
  have hcut : c.source = (c.behind.dropWhile (· ≠ '\n')).reverse ++
      ((c.behind.takeWhile (· ≠ '\n')).reverse ++ c.ahead) := by
    rw [← List.append_assoc, ← List.reverse_append, List.takeWhile_append_dropWhile, ← source_eq]
  have hstart : c.lineStart = (c.behind.dropWhile (· ≠ '\n')).reverse.length := by
    rw [h.lineStart, Text.lineStart, List.reverse_reverse, List.length_reverse]
  rw [hstart, hcut, List.drop_left]

theorem currentLine_eq (h : c.Placed) : c.currentLine =
    (c.behind.takeWhile (· ≠ '\n')).reverse ++ c.ahead.takeWhile (· ≠ '\n') := by
  have hrun : ∀ a ∈ (c.behind.takeWhile (· ≠ '\n')).reverse, decide (a ≠ '\n') := fun a ha =>
    List.all_eq_true.1 List.all_takeWhile a (List.mem_reverse.1 ha)
  rw [currentLine, h.drop_lineStart, List.takeWhile_append_of_pos hrun]

theorem currentLine_eq_lineAt (h : c.Placed) : c.currentLine = lineAt c.source c.offset := by
  rw [lineAt, take_source, List.reverse_reverse, h.currentLine_eq, ahead]

theorem column_eq (h : c.Placed) :
    c.position.column = (c.behind.takeWhile (· ≠ '\n')).reverse.length := by
  rw [h.position, Position.reached, List.reverse_reverse, List.length_reverse]

theorem column_le (h : c.Placed) : c.position.column ≤ c.currentLine.length := by
  rw [h.column_eq, h.currentLine_eq, List.length_append]
  exact Nat.le_add_right _ _

/-- The column counts the characters from the start of the line. -/
theorem column_add_lineStart (h : c.Placed) : c.position.column + c.lineStart = c.offset := by
  rw [h.column_eq, h.lineStart, Text.lineStart, List.reverse_reverse, List.length_reverse,
    ← List.length_append, List.takeWhile_append_dropWhile, h.length_behind]

/-- A failure is placed by the text behind, like its cursor. -/
theorem fail (h : c.Placed) (f : Fault) :
    c.fail f = ⟨f, (Position.reached c.behind.reverse).within c.file,
      lineAt c.source c.behind.reverse.length⟩ := by
  rw [Cursor.fail, location, h.position, h.currentLine_eq_lineAt, List.length_reverse,
    h.length_behind]

/-- The line that a cursor stands in comes after as many lines as there are newlines behind. -/
theorem getElem?_lines_count (h : c.Placed) :
    (Text.lines c.source)[c.behind.count '\n']? = some c.currentLine := by
  obtain ⟨line, rest, hbehind, hline, htake, hrest⟩ := Text.exists_line c.behind
  have hfirst : (Text.lines (line.reverse ++ c.ahead))[0]? = some c.currentLine := by
    rw [← List.head?_eq_getElem?, Text.head?_lines (by rwa [List.mem_reverse]), h.currentLine_eq,
      htake]
  rw [source_eq, hbehind, List.count_append, List.count_eq_zero.2 hline, Nat.zero_add,
    List.reverse_append, List.append_assoc]
  rcases hrest with rfl | ⟨before, rfl⟩
  · exact hfirst
  · have hcount : ('\n' :: before).count '\n' = (Text.lines before.reverse).length := by
      rw [Text.lines, Text.length_split, List.count_cons_self, List.count_reverse]
    have hlines : Text.lines (('\n' :: before).reverse ++ (line.reverse ++ c.ahead)) =
        Text.lines before.reverse ++ Text.lines (line.reverse ++ c.ahead) := by
      rw [List.reverse_cons, List.append_assoc, List.singleton_append]
      exact Text.split_append '\n' _ _
    rw [hcount, hlines, List.getElem?_append_right (Nat.le_refl _), Nat.sub_self]
    exact hfirst

/-- The line that a cursor stands in has the number of its place. -/
theorem getElem?_lines (h : c.Placed) :
    (Text.lines c.source)[c.position.line - 1]? = some c.currentLine := by
  rw [h.position, Position.reached, Nat.add_sub_cancel_left, List.count_reverse]
  exact h.getElem?_lines_count

theorem lineNumbered (h : c.Placed) :
    Text.lineNumbered c.source c.position.line = c.currentLine := by
  have hindex : ((c.position.line : Int) - 1).toNat = c.position.line - 1 := by omega
  rw [Text.lineNumbered, hindex, h.getElem?_lines, Option.getD_some]

end Placed

/-- What is behind after passing over some of the text ahead. -/
theorem behind_pass_length {c : Cursor} {t rest : List Char} (h : c.ahead = t ++ rest) :
    (c.pass t.length).behind.reverse = c.behind.reverse ++ t := by
  rw [behind_pass, h, List.take_left, List.reverse_append, List.reverse_reverse]

theorem offset_pass_length {c : Cursor} {t rest : List Char} (h : c.ahead = t ++ rest) :
    (c.pass t.length).offset = c.offset + t.length := by
  rw [offset_pass, h, List.length_append, Nat.min_eq_left (Nat.le_add_right _ _)]

theorem ahead_pass_length {c : Cursor} {t rest : List Char} (h : c.ahead = t ++ rest) :
    (c.pass t.length).ahead = rest := by
  rw [ahead_pass, h, List.drop_left]

theorem Placed.position_pass_length {c : Cursor} (hp : c.Placed) {t rest : List Char}
    (h : c.ahead = t ++ rest) :
    (c.pass t.length).position = .reached (c.behind.reverse ++ t) := by
  rw [(hp.pass _).position, behind_pass_length h]

end Cursor

end BeatNotation
