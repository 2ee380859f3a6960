import BeatNotation.Reader

/-! A lexer lets the first rule that claims a place read there. It remembers nothing, and no
rule looks back. A reader that returns without having moved would be asked for ever, so it is
reported as stalled; every other reading leaves less of the text. -/

namespace BeatNotation

/-- Settings, the rules in the order they are tried, and the readers that are out of service. -/
structure Lexer where
  settings : Settings
  rules : List Rule := Rule.priority
  idle : Rule → Bool := fun _ => false

namespace Lexer

/-- The first rule that claims the place of the cursor. -/
def ruleAt? (x : Lexer) (c : Cursor) : Option Rule :=
  x.rules.find? (·.claims x.settings.toConfiguration c)

/-- What the rule's reader makes of the text ahead, if it is in service. -/
def readAt (x : Lexer) (r : Rule) (c : Cursor) : Reading × Cursor :=
  match if x.idle r then (.skipped [], c) else r.readAt c with
  | (.fault f spent, stop) => (.fault f spent, stop)
  | (reading, stop) =>
    if stop.offset = c.offset then (.fault (.stalled r) [], stop) else (reading, stop)

variable {x : Lexer} {r : Rule} {c stop : Cursor} {reading : Reading}

/-- Reading only passes over text, and over some of it unless it comes to a fault. -/
theorem exists_pass_readAt (h : x.readAt r c = (reading, stop)) :
    ∃ n, stop = c.pass n ∧ ((∀ f spent, reading ≠ .fault f spent) → stop.offset ≠ c.offset) := by
  have hpass : ∃ n, (if x.idle r then (Reading.skipped [], c) else r.readAt c).2 = c.pass n := by
    split
    · exact ⟨0, rfl⟩
    · exact r.exists_pass_readAt c
  obtain ⟨n, hn⟩ := hpass
  rw [readAt] at h
  split at h
  · next f spent last htaken =>
    obtain ⟨rfl, rfl⟩ := Prod.mk.inj h
    rw [htaken] at hn
    exact ⟨n, hn, fun hf => absurd rfl (hf f spent)⟩
  · next taken last _ htaken =>
    rw [htaken] at hn
    split at h
    · obtain ⟨rfl, rfl⟩ := Prod.mk.inj h
      exact ⟨n, hn, fun hf => absurd rfl (hf _ _)⟩
    · next hmoved =>
      obtain ⟨rfl, rfl⟩ := Prod.mk.inj h
      exact ⟨n, hn, fun _ => hmoved⟩

theorem length_ahead_readAt_lt (h : x.readAt r c = (reading, stop))
    (hf : ∀ f spent, reading ≠ .fault f spent) : stop.ahead.length < c.ahead.length := by
  obtain ⟨n, rfl, hmoved⟩ := exists_pass_readAt h
  have hoffset := hmoved hf
  rw [Cursor.offset_pass] at hoffset
  rw [Cursor.ahead_pass, List.length_drop]
  omega

end Lexer

end BeatNotation
