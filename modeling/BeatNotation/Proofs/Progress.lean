import BeatNotation.Proofs.Sequence
import BeatNotation.Proofs.Viability

/-! Progress. Every read that brings a token moves on, so a text runs out after at most one read
for each of its characters and one more. No reader stalls or consumes past the end, and which
fault ends the reads is told by the text: a numeral is found too long where its number is
complete, and a missing denominator comes before that. -/

namespace BeatNotation

open Alphabet

/-- As many attempts to consume as there are characters ahead bring just these. -/
theorem Cursor.consumeMany_length {c : Cursor} {t rest : List Char} (h : c.ahead = t ++ rest) :
    c.consumeMany t.length = (t.map some, c.pass t.length) := by
  rw [consumeMany_eq, h, List.take_left, List.length_append, Nat.sub_add_eq, Nat.sub_self,
    Nat.zero_sub, List.replicate_zero, List.append_nil]

/-! ### The end of the reads -/

namespace Lexer

variable {x : Lexer} {s : Settings} {c : Cursor}

/-- Each read of a row that brings a token leaves a character less, at least. -/
theorem length_ahead_reads_add_le {n : Nat}
    (h : ∀ m < n, ∃ t, (x.read (x.reads c m).state).result = .token t) :
    (x.reads c n).state.ahead.length + n ≤ c.ahead.length := by
  induction n with
  | zero => exact Nat.le_refl _
  | succ n ih =>
    obtain ⟨t, ht⟩ := h n n.lt_succ_self
    have hbefore := ih fun m hm => h m (Nat.lt_succ_of_lt hm)
    have hless := length_ahead_read_lt ht
    rw [reads_succ]
    show (x.read (x.reads c n).state).state.ahead.length + (n + 1) ≤ _
    omega

/-- The row of a drain: its tokens, and then its end. -/
theorem reads_drain_tokens (x : Lexer) (c : Cursor) :
    let result := (Scanner.mk x c none).drain.result
    (x.reads c result.1.length).result = result.1.map .token ∧
      (x.read (x.reads c result.1.length).state).result = .ending result.2 := by
  have h := congrArg Reply.result (x.reads_drain c)
  rw [reads_succ] at h
  obtain ⟨htokens, hend⟩ := List.append_inj' h rfl
  exact ⟨htokens, List.singleton_inj.1 hend⟩

/-- A drain has no more tokens than its text has characters. -/
theorem length_drain_le (x : Lexer) (c : Cursor) :
    (Scanner.mk x c none).drain.result.1.length ≤ c.ahead.length := by
  obtain ⟨htokens, -⟩ := x.reads_drain_tokens c
  have hbring : ∀ o ∈ (x.reads c (Scanner.mk x c none).drain.result.1.length).result,
      ∃ t, o = .token t := by
    intro o ho
    rw [htokens] at ho
    obtain ⟨t, -, rfl⟩ := List.mem_map.1 ho
    exact ⟨t, rfl⟩
  have hleft := length_ahead_reads_add_le fun m hm => read_of_forall_reads hbring hm
  exact Nat.le_trans (Nat.le_add_left _ _) hleft

/-- No reader stalls: a failure is of a documented category, or its numeral is too long. -/
theorem category_of_read {f : Failure} (h : (s.lexer.read c).result = .failure f) :
    f.fault.category? ∈ [some .unexpectedCharacter, some .malformedNumber, none] := by
  obtain ⟨d, spent, hp, -, -⟩ := exists_of_read_failure h
  have hh := heads_piece s d.ahead
  rw [hp] at hh
  cases hf : f.fault with
  | stalled r =>
    rw [hf] at hh
    exact hh.elim
  | _ => simp [Fault.category?]

end Lexer

/-! ### The fault at the end -/

/-- The reads of a text come to an end with such a fault and at such an offset. -/
def FailsAt (s : Settings) (file? : Option String) (source : List Char) (f : Fault) (p : Nat) :
    Prop :=
  (∃ g, (tokenize s file? source).1 = .error g ∧ g.fault = f) ∧
    (Scanner.start s.lexer file? source).drain.state.cursor.offset = p

/-- After lexemes, the text comes to a complete number that has a numeral too long to convert,
`n` digits long if it is the first such. The number ends at `p`. -/
def ComesToOverlong (x : Configuration) (source : List Char) (n p : Nat) : Prop :=
  ∃ (d : Layout) (l : Lexeme) (rest : List Char), source = d.text ++ (l.text ++ rest) ∧
    d.Leads x (l.text ++ rest) ∧ l.Formed x ∧ Stops l.goesOn rest ∧
    (l.numerals.map List.length).find? (Numeral.limit < ·) = some n ∧
    p = d.text.length + l.text.length

/-- After lexemes, the text comes to digits and a slash with no digit after it, at `p`. -/
def ComesToUndivided (x : Configuration) (source : List Char) (p : Nat) : Prop :=
  ∃ (d : Layout) (ds rest : List Char), source = d.text ++ (ds ++ slash :: rest) ∧
    d.Leads x (ds ++ slash :: rest) ∧ IsNumeral ds ∧ Stops isDigit rest ∧
    p = d.text.length + ds.length + 1

variable {s : Settings} {file? : Option String} {source : List Char} {p : Nat}

/-- A text fails at the fault that it is laid out up to. -/
theorem failsAt_iff {f : Fault} : FailsAt s file? source f p ↔
    ∃ (d : Layout) (spent rest : List Char), source = d.text ++ (spent ++ rest) ∧
      d.Leads s.toConfiguration (spent ++ rest) ∧
      s.lexer.piece (spent ++ rest) = .fault f spent ∧ p = d.text.length + spent.length := by
  constructor
  · rintro ⟨⟨g, hg, rfl⟩, rfl⟩
    obtain ⟨d, spent, rest, rfl, hd, hp, -, hoffset, -⟩ := exists_fault_of_error hg
    exact ⟨d, spent, rest, rfl, hd, hp, hoffset⟩
  · rintro ⟨d, spent, rest, rfl, hd, hp, rfl⟩
    let c := Cursor.start (s.fileFor file?) (d.text ++ (spent ++ rest))
    have hc : c.ahead = d.text ++ (spent ++ rest) := rfl
    obtain ⟨hfail, hst, -⟩ := Layout.drain_fault hd hc hp
    refine ⟨⟨_, tokenize_error_iff.2 hfail, rfl⟩, ?_⟩
    show (Scanner.mk s.lexer c none).drain.state.cursor.offset = _
    rw [hst, Cursor.offset_pass_length (Cursor.ahead_pass_length hc), Cursor.offset_pass_length hc]
    rw [show c.offset = 0 from rfl, Nat.zero_add]

theorem Lexeme.excess?_eq_find? (l : Lexeme) :
    l.excess? = (l.numerals.map List.length).find? (Numeral.limit < ·) := by
  cases l with
  | integer ds => simp [excess?, numerals, Numeral.excess?]
  | ratio ds es =>
    by_cases hd : Numeral.limit < ds.length <;> simp [excess?, numerals, Numeral.excess?, hd]
  | _ => rfl

theorem Lexer.piece_eq_numeralTooLong_iff {n : Nat} {spent rest : List Char} :
    s.lexer.piece (spent ++ rest) = .fault (.numeralTooLong n) spent ↔
      ∃ l : Lexeme, spent = l.text ∧ l.Formed s.toConfiguration ∧ Stops l.goesOn rest ∧
        l.excess? = some n := by
  constructor
  · intro hp
    have hh := heads_piece s (spent ++ rest)
    rw [hp] at hh
    obtain ⟨l, u, rfl, hf, he, ht, hs⟩ := hh
    obtain rfl := List.append_cancel_left ht
    exact ⟨l, rfl, hf, hs, he⟩
  · rintro ⟨l, rfl, hf, hs, he⟩
    rw [piece_formed hf hs, he]

theorem failsAt_numeralTooLong_iff {n : Nat} :
    FailsAt s file? source (.numeralTooLong n) p ↔ ComesToOverlong s.toConfiguration source n p := by
  rw [failsAt_iff]
  constructor
  · rintro ⟨d, spent, rest, ht, hd, hp, rfl⟩
    obtain ⟨l, rfl, hf, hs, he⟩ := Lexer.piece_eq_numeralTooLong_iff.1 hp
    exact ⟨d, l, rest, ht, hd, hf, hs, by rw [← l.excess?_eq_find?, he], rfl⟩
  · rintro ⟨d, l, rest, ht, hd, hf, hs, he, rfl⟩
    rw [← l.excess?_eq_find?] at he
    exact ⟨d, l.text, rest, ht, hd, Lexer.piece_eq_numeralTooLong_iff.2 ⟨l, rfl, hf, hs, he⟩, rfl⟩

theorem failsAt_missingDenominator_iff :
    FailsAt s file? source .missingDenominator p ↔ ComesToUndivided s.toConfiguration source p := by
  rw [failsAt_iff]
  constructor
  · rintro ⟨d, spent, rest, ht, hd, hp, rfl⟩
    have hh := Lexer.heads_piece s (spent ++ rest)
    rw [hp] at hh
    obtain ⟨ds, u, rfl, hds, hu, hs⟩ := hh
    obtain rfl := List.append_cancel_left hu
    rw [List.append_assoc, List.singleton_append] at ht hd
    exact ⟨d, ds, rest, ht, hd, hds, hs, by simp [Nat.add_assoc]⟩
  · rintro ⟨d, ds, rest, ht, hd, hds, hs, rfl⟩
    have happend : ds ++ slash :: rest = ds ++ [slash] ++ rest := by simp
    rw [happend] at ht hd
    refine ⟨d, ds ++ [slash], rest, ht, hd, ?_, by simp [Nat.add_assoc]⟩
    exact Lexer.piece_of_heads (by simp) ⟨ds, rest, rfl, hds, rfl, hs⟩

/-- Asked again and again, a fresh scanner moves on with every token and comes to the end or to a
failure after at most as many tokens as the text has characters. -/
theorem Scanner.nexts_terminate (s : Settings) (file? : Option String) (source : List Char) :
    let fresh := Scanner.start s.lexer file? source
    let outcome := fun n => (fresh.nexts n).state.next.result
    (∀ n t, outcome n = .token t →
      (fresh.nexts n).state.cursor.offset < (fresh.nexts (n + 1)).state.cursor.offset) ∧
    (∃ n ts, n ≤ source.length ∧ (fresh.nexts n).result = ts.map .token ∧
      (outcome n = .finish ∧ (tokenize s file? source).1 = .ok ts ∨
        ∃ f, outcome n = .failure f ∧ (tokenize s file? source).1 = .error f)) ∧
    (∀ n f, outcome n = .failure f →
      f.fault.category? ∈ [some .unexpectedCharacter, some .malformedNumber, none]) ∧
    (∀ c : Cursor, c.consumeMany (s.lexer.piece c.ahead).text.length =
      ((s.lexer.piece c.ahead).text.map some, c.pass (s.lexer.piece c.ahead).text.length)) ∧
    (∀ n p, FailsAt s file? source (.numeralTooLong n) p ↔
      ComesToOverlong s.toConfiguration source n p) ∧
    ∀ p, FailsAt s file? source .missingDenominator p ↔
      ComesToUndivided s.toConfiguration source p := by
  intro fresh outcome
  let c := fresh.cursor
  have hnexts : ∀ n, fresh.nexts n = ⟨(s.lexer.reads c n).result,
      .mk s.lexer (s.lexer.reads c n).state none, (s.lexer.reads c n).remarks⟩ :=
    fun n => nexts_eq_reads s.lexer c n
  have houtcome : ∀ n, outcome n = (s.lexer.read (s.lexer.reads c n).state).result := by
    intro n
    simp only [outcome, hnexts]
    rfl
  refine ⟨fun n t ht => ?_, ?_, fun n f hf => ?_, fun c => ?_, fun n p => ?_, fun p => ?_⟩
  · rw [houtcome] at ht
    rw [hnexts, hnexts, Lexer.reads_succ]
    exact Lexer.offset_lt_read ht
  · obtain ⟨htokens, hend⟩ := s.lexer.reads_drain_tokens c
    refine ⟨_, _, s.lexer.length_drain_le c, by rw [hnexts, htokens], ?_⟩
    rw [houtcome, hend, tokenize_ok_iff]
    cases hf : (Scanner.mk s.lexer c none).drain.result.2 with
    | none => exact .inl ⟨rfl, Prod.ext rfl hf⟩
    | some f => exact .inr ⟨f, rfl, tokenize_error_iff.2 hf⟩
  · rw [houtcome] at hf
    exact Lexer.category_of_read hf
  · obtain ⟨rest, hrest⟩ := (Lexer.heads_piece s c.ahead).exists_rest
    exact Cursor.consumeMany_length hrest
  · exact failsAt_numeralTooLong_iff
  · exact failsAt_missingDenominator_iff

/-- Leading zeros count towards the length of a numeral. -/
theorem comesToOverlong_zeros {x : Configuration} {n : Nat} (h : Numeral.limit < n) :
    ComesToOverlong x (List.replicate n '0') n n := by
  have hzeros : IsNumeral (List.replicate n '0') := by
    refine ⟨fun hnil => ?_, fun d hd => ?_⟩
    · obtain rfl : n = 0 := by simpa using hnil
      exact absurd h (Nat.not_lt_zero _)
    · rw [List.eq_of_mem_replicate hd]
      decide
  refine ⟨.last [], .integer (List.replicate n '0'), [], ?_, .nil, hzeros, stops_nil _, ?_, ?_⟩
  · simp [Layout.text, Lexeme.text]
  · simp [Lexeme.numerals, h]
  · simp [Layout.text, Lexeme.text]

/-- One zero more than can be converted. -/
theorem Scanner.nexts_terminate_overlong :
    FailsAt .standard none (List.replicate 4301 '0') (.numeralTooLong 4301) 4301 := by
  obtain ⟨-, -, -, -, hlong, -⟩ := nexts_terminate .standard none (List.replicate 4301 '0')
  exact (hlong 4301 4301).2 (comesToOverlong_zeros (by decide))

end BeatNotation
