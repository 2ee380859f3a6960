import BeatNotation.Proofs.Sequence

/-! The order of the rules. At most one rule claims a place, so a table that holds every
rule picks the same one in whatever order it is tried. Two lexers that cut the same pieces
off every text cannot be told apart by anything that a session asks of them. -/

namespace BeatNotation

/-- At most one rule claims the place of a cursor. -/
theorem Rule.claims_unique {s : Settings} {c : Cursor} {r r' : Rule}
    (h : r.claims s.toConfiguration c) (h' : r'.claims s.toConfiguration c) : r = r' := by
  unfold claims at h h'
  cases ha : c.peek 0 with
  | none =>
    rw [ha] at h
    cases h
  | some a =>
    rw [ha] at h h'
    exact accepts_unique h h'

/-- Of the rules in order of priority, at most one claims a place. -/
theorem Rule.length_filter_claims_le (s : Settings) (c : Cursor) :
    (priority.filter (·.claims s.toConfiguration c)).length ≤ 1 := by
  have hnodup : (priority.filter (·.claims s.toConfiguration c)).Nodup :=
    List.Pairwise.filter _ (by decide)
  have hclaims : ∀ r ∈ priority.filter (·.claims s.toConfiguration c),
      r.claims s.toConfiguration c := fun r hr => (List.mem_filter.1 hr).2
  cases hl : priority.filter (·.claims s.toConfiguration c) with
  | nil => simp
  | cons r rs =>
    rw [hl] at hnodup hclaims
    cases rs with
    | nil => simp
    | cons r' rs =>
      have heq : r = r' := claims_unique (hclaims r (by simp)) (hclaims r' (by simp))
      simp [heq] at hnodup

/-! ### Lexers that cut alike -/

/-- The lexers have the same settings and cut the same piece off every text. -/
structure Lexer.Alike (x y : Lexer) : Prop where
  settings : x.settings = y.settings
  piece : x.piece = y.piece

/-- A table in any order picks the same rule. -/
theorem Lexer.rule?_of_perm {s : Settings} {rules : List Rule} (h : rules.Perm Rule.priority)
    (c : Char) (next : Option Char) :
    Lexer.rule? { settings := s, rules := rules } c next = s.lexer.rule? c next := by
  have hmem : ∀ r, r ∈ rules := fun r => h.mem_iff.2 r.mem_priority
  apply Option.ext
  intro r
  exact (rule?_eq_some_iff (x := { settings := s, rules := rules }) hmem).trans
    rule?_lexer_iff.symm

theorem Lexer.alike_of_perm (s : Settings) {rules : List Rule} (h : rules.Perm Rule.priority) :
    Lexer.Alike { settings := s, rules := rules } s.lexer where
  settings := rfl
  piece := by
    funext t
    cases t with
    | nil => rfl
    | cons c rest =>
      rw [piece, piece, rule?_of_perm h]
      rfl

theorem Lexer.Alike.read {x y : Lexer} (h : x.Alike y) (c : Cursor) : x.read c = y.read c := by
  have hagree : Lexer.AgreesBut (fun _ => False) x y :=
    ⟨by rw [h.settings], fun t => .inl (by rw [h.piece])⟩
  exact (hagree.read fun _ _ => id).symm

/-! ### Scanners and sessions -/

namespace Scanner

/-- The scanners stand at the same place with the same token in hand, and their lexers cut alike. -/
structure Alike (s t : Scanner) : Prop where
  lexer : s.lexer.Alike t.lexer
  cursor : s.cursor = t.cursor
  held : s.held = t.held

namespace Alike

variable {s t : Scanner}

theorem next (h : s.Alike t) : Reply.Alike Alike s.next t.next := by
  unfold Scanner.next
  rw [h.held, h.cursor, h.lexer.read]
  split
  · exact ⟨rfl, rfl, h.lexer, rfl, rfl⟩
  · exact ⟨rfl, rfl, h.lexer, rfl, rfl⟩

theorem peek (h : s.Alike t) : Reply.Alike Alike s.peek t.peek := by
  unfold Scanner.peek
  rw [h.held, h.cursor, h.lexer.read]
  split
  · exact ⟨rfl, rfl, h⟩
  · exact ⟨rfl, rfl, h.lexer, rfl, rfl⟩

/-- The reply of the other scanner, when one reply is known. -/
theorem next_eq (h : s.Alike t) {o : Outcome} {after : Scanner} {remarks : List Remark}
    (hn : s.next = ⟨o, after, remarks⟩) :
    ∃ after', t.next = ⟨o, after', remarks⟩ ∧ after.Alike after' := by
  have hnext := h.next
  rw [hn] at hnext
  cases ht : t.next with
  | mk o' after' remarks' =>
    rw [ht] at hnext
    obtain ⟨rfl, rfl, hst⟩ := hnext
    exact ⟨after', rfl, hst⟩

theorem drain (h : s.Alike t) : Reply.Alike Alike s.drain t.drain := by
  fun_induction Scanner.drain s generalizing t with
  | case1 s token after remarks hn tokens failure? last others hd ih =>
    obtain ⟨after', hn', hafter⟩ := h.next_eq hn
    have hlater := ih hafter
    rw [hd] at hlater
    rw [drain_of_next hn']
    exact ⟨by simp [← hlater.result], by simp [← hlater.remarks], hlater.state⟩
  | case2 s f after remarks hn =>
    obtain ⟨after', hn', hafter⟩ := h.next_eq hn
    rw [drain_of_next hn']
    exact ⟨rfl, rfl, hafter⟩
  | case3 s after remarks hn =>
    obtain ⟨after', hn', hafter⟩ := h.next_eq hn
    rw [drain_of_next hn']
    exact ⟨rfl, rfl, hafter⟩

theorem take (h : s.Alike t) (n : Nat) : Reply.Alike Alike (s.take n) (t.take n) := by
  fun_induction Scanner.take s n generalizing t with
  | case1 s => exact ⟨rfl, rfl, h⟩
  | case2 s n token after remarks hn tokens failure? last others hd ih =>
    obtain ⟨after', hn', hafter⟩ := h.next_eq hn
    have hlater := ih hafter
    rw [hd] at hlater
    simp only [Scanner.take, hn']
    exact ⟨by simp [← hlater.result], by simp [← hlater.remarks], hlater.state⟩
  | case3 s n f after remarks hn =>
    obtain ⟨after', hn', hafter⟩ := h.next_eq hn
    simp only [Scanner.take, hn']
    exact ⟨rfl, rfl, hafter⟩
  | case4 s n after remarks hn =>
    obtain ⟨after', hn', hafter⟩ := h.next_eq hn
    simp only [Scanner.take, hn']
    exact ⟨rfl, rfl, hafter⟩

end Alike

end Scanner

namespace Session

/-- The sessions have scanners that are alike and pullers in the same state. -/
structure Alike (s t : Session) : Prop where
  scanner : s.scanner.Alike t.scanner
  pulling : s.pulling = t.pulling

theorem Alike.perform {s t : Session} (h : s.Alike t) (step : Step) :
    Reply.Alike Alike (s.perform step) (t.perform step) := by
  cases step with
  | next =>
    obtain ⟨hres, hrem, hst⟩ := h.scanner.next
    exact ⟨congrArg Answer.outcome hres, hrem, hst, h.pulling⟩
  | peek =>
    obtain ⟨hres, hrem, hst⟩ := h.scanner.peek
    exact ⟨congrArg Answer.outcome hres, hrem, hst, h.pulling⟩
  | atEnd =>
    obtain ⟨hres, hrem, hst⟩ := h.scanner.peek
    refine ⟨?_, hrem, hst, h.pulling⟩
    simp only [Session.perform, hres]
  | file => exact ⟨congrArg (fun c : Cursor => Answer.file c.file) h.scanner.cursor, rfl, h⟩
  | drain =>
    obtain ⟨hres, hrem, hst⟩ := h.scanner.drain
    refine ⟨?_, hrem, hst, h.pulling⟩
    simp only [Session.perform, hres]
  | take n =>
    obtain ⟨hres, hrem, hst⟩ := h.scanner.take n
    refine ⟨?_, hrem, hst, h.pulling⟩
    simp only [Session.perform, hres]
  | pull =>
    obtain ⟨hres, hrem, hst⟩ := h.scanner.next
    simp only [Session.perform, h.pulling]
    split
    · exact ⟨congrArg Answer.outcome hres, hrem, hst, by simp only [hres]⟩
    · exact ⟨rfl, rfl, h⟩

/-- What a caller sees of a reply: the answer, the remarks, where the cursor stands, and the
token in hand. -/
def shown (r : Reply Session Answer) : Answer × List Remark × Cursor × Option Token :=
  (r.result, r.remarks, r.state.scanner.cursor, r.state.scanner.held)

theorem Alike.run {s t : Session} (h : s.Alike t) (steps : List Step) :
    (s.run steps).map shown = (t.run steps).map shown := by
  induction steps generalizing s t with
  | nil => rfl
  | cons step steps ih =>
    obtain ⟨hres, hrem, hst⟩ := h.perform step
    simp only [Session.run, List.map_cons, ih hst, shown, hres, hrem, hst.scanner.cursor,
      hst.scanner.held]

/-- At most one rule claims the place of a cursor, and so a session answers alike whatever the
order in which the rules are tried. -/
theorem run_rule_order (s : Settings) :
    (∀ c : Cursor, (Rule.priority.filter (·.claims s.toConfiguration c)).length ≤ 1) ∧
    ∀ (rules : List Rule) (file? : Option String) (source : List Char) (steps : List Step),
      rules.Perm Rule.priority →
      (Session.run { scanner := .start { settings := s, rules := rules } file? source } steps).map
          shown =
        (Session.run { scanner := .start s.lexer file? source } steps).map shown := by
  constructor
  · exact Rule.length_filter_claims_le s
  · intro rules file? source steps h
    have hstart : Alike { scanner := .start { settings := s, rules := rules } file? source }
        { scanner := .start s.lexer file? source } := ⟨⟨Lexer.alike_of_perm s h, rfl, rfl⟩, rfl⟩
    exact hstart.run steps

/-- The last rule tried first, on a text where both the number and the comment rule know the
slash. -/
theorem run_rule_order_reversed :
    (Rule.priority.filter
        (·.claims Settings.standard.toConfiguration (.start "" ['/', '/']))).length ≤ 1 ∧
      Rule.priority.reverse.Perm Rule.priority ∧
      (Session.run (.mk (.start { settings := .standard, rules := Rule.priority.reverse } none
          ['4', '/', '4', '/', '/', '4']) true) [.peek, .next, .next]).map shown =
        (Session.run (.mk (.start Settings.standard.lexer none
          ['4', '/', '4', '/', '/', '4']) true) [.peek, .next, .next]).map shown :=
  ⟨(run_rule_order .standard).1 (.start "" ['/', '/']), List.reverse_perm _,
    (run_rule_order .standard).2 _ none _ [.peek, .next, .next] (List.reverse_perm _)⟩

end Session

end BeatNotation
