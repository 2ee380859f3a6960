import BeatNotation.Cursor.Probe
import BeatNotation.Proofs.Places

/-! Probing a text. Whatever probes are made of a cursor, its place is told by how much of the
source has been consumed, and each probe finds what the source has there. Only consuming and
reading move the cursor, past the characters that they find and no others. -/

namespace BeatNotation

/-! ### Runs and line starts -/

namespace Text

/-- The last line of a text begins at `n`: just after the last newline, or else at the start. -/
structure LastLineAt (t : List Char) (n : Nat) : Prop where
  newline : n = 0 ∨ ∃ m, n = m + 1 ∧ t[m]? = some '\n'
  rest : '\n' ∉ t.drop n

theorem lastLineAt_lineStart (t : List Char) : LastLineAt t (lineStart t) := by
  obtain ⟨line, rest, ht, hline, htake, hrest⟩ := exists_line t.reverse
  have hcut : t.reverse = line ++ t.reverse.dropWhile (· ≠ '\n') := by
    rw [← htake, List.takeWhile_append_dropWhile]
  have hdrop : t.reverse.dropWhile (· ≠ '\n') = rest :=
    List.append_cancel_left (hcut.symm.trans ht)
  have hback : t = rest.reverse ++ line.reverse := by
    rw [← List.reverse_append, ← ht, List.reverse_reverse]
  have hstart : lineStart t = rest.reverse.length := by
    rw [lineStart, hdrop, List.length_reverse]
  constructor
  · rcases hrest with rfl | ⟨before, rfl⟩
    · exact .inl hstart
    · have hlength : lineStart t = before.reverse.length + 1 := by
        rw [hstart, List.reverse_cons, List.length_append, List.length_singleton]
      refine .inr ⟨before.reverse.length, hlength, ?_⟩
      rw [hback, List.reverse_cons, List.append_assoc, List.getElem?_append_right (Nat.le_refl _),
        Nat.sub_self]
      rfl
  · rw [hstart, hback, List.drop_left, List.mem_reverse]
    exact hline

/-- The longest beginning of a text whose characters all have a property. -/
structure LongestRun (p : Char → Bool) (run t : List Char) : Prop where
  begins : run <+: t
  all : ∀ a ∈ run, p a
  longest : ∀ u, u <+: t → (∀ a ∈ u, p a) → u <+: run

theorem longestRun_takeWhile (p : Char → Bool) (t : List Char) :
    LongestRun p (t.takeWhile p) t where
  begins := List.takeWhile_prefix p
  all := List.all_eq_true.1 List.all_takeWhile
  longest := by
    rintro u ⟨v, rfl⟩ hu
    rw [List.takeWhile_append_of_pos hu]
    exact List.prefix_append u _

end Text

namespace Cursor

variable {c : Cursor}

/-- The cursor of a text stands where `read` has been consumed, and has the place of that. -/
structure StandsAfter (c : Cursor) (file : String) (source read : List Char) : Prop where
  inFile : c.file = file
  consumed : read = source.take c.offset
  offset_le : c.offset ≤ source.length
  line : c.position.line = 1 + read.count '\n'
  lineStart : Text.LastLineAt read c.lineStart
  column : c.position.column + c.lineStart = c.offset
  currentLine : (Text.lines source)[c.position.line - 1]? = some c.currentLine
  fromLineStart : c.currentLine = (source.drop c.lineStart).takeWhile (· ≠ '\n')
  column_le : c.position.column ≤ c.currentLine.length

theorem Placed.standsAfter (h : c.Placed) :
    c.StandsAfter c.file c.source c.behind.reverse where
  inFile := rfl
  consumed := c.take_source.symm
  offset_le := h.offset_le
  line := by rw [h.position, Position.reached]
  lineStart := by
    rw [h.lineStart]
    exact Text.lastLineAt_lineStart _
  column := h.column_add_lineStart
  currentLine := h.getElem?_lines
  fromLineStart := rfl
  column_le := h.column_le

/-! ### Single probes -/

/-- What is at a distance from the cursor is in the source at the sum of that and the offset. -/
theorem peek_eq (c : Cursor) (k : Int) :
    c.peek k = if 0 ≤ c.offset + k ∧ c.offset + k < c.source.length then
      c.source[(c.offset + k).toNat]? else none := by
  rw [peek]
  split
  · rw [if_neg (by omega)]
  · split
    · rfl
    · exact List.getElem?_eq_none (by omega)

end Cursor

namespace Probe

/-- The characters that a probe has consumed, by what it has found. -/
def consumed : Probe → Finding → List Char
  | consume _, .chars cs => cs.filterMap id
  | readWhile _, .text t => t
  | _, _ => []

/-- What a probe must find in the source from a cursor, and where it must leave the cursor. -/
def Tells (source : List Char) (c : Cursor) : Probe → Finding × Cursor → Prop
  | peek k, found => found =
    (.char (if 0 ≤ c.offset + k ∧ c.offset + k < source.length then
      source[(c.offset + k).toNat]? else none), c)
  | consume n, (found, next) => found =
      .chars (((source.drop c.offset).take n).map some ++
        List.replicate (n - (source.length - c.offset)) none) ∧
    next.offset = min (c.offset + n) source.length ∧ (c.offset = source.length → next = c)
  | atEnd, found => found = (.flag (c.offset = source.length), c)
  | readWhile p, (found, next) => ∃ run, found = .text run ∧
    Text.LongestRun p run (source.drop c.offset) ∧ next.offset = c.offset + run.length
  | location, found => found = (.location ⟨c.file, c.position.line, c.position.column⟩, c)
  | currentLine, found => ∃ line, (Text.lines source)[c.position.line - 1]? = some line ∧
    found = (.text line, c)
  | diagnose d, found => ∃ line, (Text.lines source)[c.position.line - 1]? = some line ∧
    found = (.diagnostic { d with
      location? := some ⟨c.file, c.position.line, c.position.column⟩
      sourceLine? := some (String.ofList line) }, c)

end Probe

namespace Cursor

variable {c : Cursor}

/-- A probe only passes over what it has consumed. -/
theorem exists_pass_probe (c : Cursor) (p : Probe) :
    ∃ k, (c.probe p).2 = c.pass k ∧ p.consumed (c.probe p).1 = c.ahead.take k := by
  cases p with
  | consume n =>
    refine ⟨n, by rw [probe, consumeMany_eq], ?_⟩
    have hbrought : ((c.ahead.take n).map some).filterMap id = c.ahead.take n := by
      rw [List.filterMap_map]
      exact List.filterMap_some
    rw [probe, consumeMany_eq, Probe.consumed, List.filterMap_append, hbrought,
      List.filterMap_replicate_of_none rfl, List.append_nil]
  | readWhile p =>
    refine ⟨(c.ahead.takeWhile p).length, by rw [probe, readWhile_eq], ?_⟩
    rw [probe, readWhile_eq]
    exact List.prefix_iff_eq_take.1 (List.takeWhile_prefix p)
  | _ => exact ⟨0, rfl, rfl⟩

theorem Placed.probe_tells (h : c.Placed) (p : Probe) : p.Tells c.source c (c.probe p) := by
  have hlength := h.offset_add_length_ahead
  cases p with
  | peek k => rw [Probe.Tells, probe, peek_eq]
  | consume n =>
    rw [probe, consumeMany_eq]
    refine ⟨?_, ?_, ?_⟩
    · have hleft : c.source.length - c.offset = c.ahead.length := by omega
      rw [hleft, ahead]
    · rw [offset_pass]
      omega
    · intro hend
      exact pass_of_nil (List.eq_nil_of_length_eq_zero (by omega)) n
  | atEnd =>
    have hend : c.atEnd = decide (c.offset = c.source.length) := by
      rw [atEnd, peek_zero, ← hlength]
      cases c.ahead <;> simp
    rw [Probe.Tells, probe, hend]
  | readWhile p =>
    rw [probe, readWhile_eq]
    refine ⟨_, rfl, Text.longestRun_takeWhile p c.ahead, ?_⟩
    have hle : (c.ahead.takeWhile p).length ≤ c.ahead.length :=
      (List.takeWhile_prefix p).length_le
    rw [offset_pass, Nat.min_eq_left hle]
  | location => rfl
  | currentLine => exact ⟨_, h.getElem?_lines, rfl⟩
  | diagnose d => exact ⟨_, h.getElem?_lines, rfl⟩

/-! ### Probes one after another -/

/-- All that the probes of a run have consumed. -/
def consumed (probes : List Probe) (found : List (Finding × Cursor)) : List Char :=
  (probes.zipWith (fun p f => p.consumed f.1) found).flatten

/-- The cursor after the last of some findings. -/
def after (c : Cursor) : List (Finding × Cursor) → Cursor
  | [] => c
  | f :: found => f.2.after found

/-- A run of probes only passes over what it has consumed. -/
theorem exists_pass_probes (c : Cursor) (probes : List Probe) :
    ∃ k, c.after (c.probes probes) = c.pass k ∧
      consumed probes (c.probes probes) = c.ahead.take k := by
  induction probes generalizing c with
  | nil => exact ⟨0, rfl, rfl⟩
  | cons p probes ih =>
    obtain ⟨j, hj, hfirst⟩ := c.exists_pass_probe p
    obtain ⟨k, hk, hlater⟩ := ih (c.probe p).2
    refine ⟨j + k, ?_, ?_⟩
    · rw [pass_add, ← hj, ← hk]
      rfl
    · rw [List.take_add, ← ahead_pass, ← hj, ← hlater, ← hfirst]
      rfl

theorem probes_append_singleton (c : Cursor) (probes : List Probe) (p : Probe) :
    c.probes (probes ++ [p]) = c.probes probes ++ [(c.after (c.probes probes)).probe p] := by
  induction probes generalizing c with
  | nil => rfl
  | cons q probes ih =>
    simp only [List.cons_append, Cursor.probes, ih]
    rfl

/-- After any probes, the characters consumed are the beginning of the source up to the offset,
and the cursor has the place of these. Whatever probe comes next finds what the source has from
there on; unless it consumes or reads, it leaves the cursor where it is. -/
theorem probes_tell (file : String) (source : List Char) (probes : List Probe) :
    let start := Cursor.start file source
    let found := start.probes probes
    let c := start.after found
    c.StandsAfter file source (consumed probes found) ∧
      ∀ p, start.probes (probes ++ [p]) = found ++ [c.probe p] ∧
        p.Tells source c (c.probe p) := by
  intro start found c
  obtain ⟨k, hk, hconsumed⟩ := start.exists_pass_probes probes
  have hc : c = start.pass k := hk
  have hplaced : c.Placed := by
    rw [hc]
    exact (placed_start file source).pass k
  have hfile : c.file = file := by
    rw [hc, file_pass]
    rfl
  have hsource : c.source = source := by
    rw [hc, source_pass]
    rfl
  have hread : c.behind.reverse = consumed probes found := by
    rw [hc, behind_pass, ← hconsumed, List.reverse_append, List.reverse_reverse]
    rfl
  refine ⟨?_, fun p => ⟨start.probes_append_singleton probes p, ?_⟩⟩
  · rw [← hfile, ← hread, ← hsource]
    exact hplaced.standsAfter
  · rw [← hsource]
    exact hplaced.probe_tells p

end Cursor

end BeatNotation
