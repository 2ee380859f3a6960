import BeatNotation.Proofs.Dispatch

/-! The lexical grammar, told apart from the readers: what the lexemes of a configuration
are, where each of them ends, and what a gap is. A lexer of accepted settings cuts off
just what the grammar says: a well-formed lexeme that the text after it does not go on,
and otherwise a fault whose cause stands in the text. -/

namespace BeatNotation

open Alphabet

/-! ### Longest runs -/

/-- The text does not go on with such a character. -/
def Stops (p : Char → Bool) (rest : List Char) : Prop := ∀ c ∈ rest.head?, ¬ p c

@[simp] theorem stops_nil (p : Char → Bool) : Stops p [] := by simp [Stops]

@[simp] theorem stops_cons {p : Char → Bool} {c : Char} {rest : List Char} :
    Stops p (c :: rest) ↔ ¬ p c := by simp [Stops]

/-- A text that begins as another does, or is empty, still does after the same beginning. -/
theorem head_append_of_head {rest rest' : List Char} (h : ∀ c ∈ rest'.head?, c ∈ rest.head?)
    (t : List Char) : ∀ c ∈ (t ++ rest').head?, c ∈ (t ++ rest).head? := by
  cases t with
  | nil => exact h
  | cons a t => exact fun _ => id

theorem Stops.of_head {p : Char → Bool} {rest rest' : List Char} (hs : Stops p rest)
    (h : ∀ c ∈ rest'.head?, c ∈ rest.head?) : Stops p rest' := fun c hc => hs c (h c hc)

/-- The end of the text or of a line comes next. -/
def AtLineEnd (rest : List Char) : Prop := Stops (· ≠ '\n') rest

theorem takeWhile_of_stops {p : Char → Bool} {rest : List Char} (h : Stops p rest) :
    rest.takeWhile p = [] := by
  cases rest with
  | nil => rfl
  | cons c rest => exact List.takeWhile_cons_of_neg (stops_cons.1 h)

theorem takeWhile_run {p : Char → Bool} {run rest : List Char} (hr : ∀ c ∈ run, p c)
    (hs : Stops p rest) : (run ++ rest).takeWhile p = run := by
  rw [List.takeWhile_append_of_pos hr, takeWhile_of_stops hs, List.append_nil]

theorem dropWhile_run {p : Char → Bool} {run rest : List Char} (hr : ∀ c ∈ run, p c)
    (hs : Stops p rest) : (run ++ rest).dropWhile p = rest := by
  rw [List.dropWhile_append_of_pos hr]
  cases rest with
  | nil => rfl
  | cons c rest => exact List.dropWhile_cons_of_neg (stops_cons.1 hs)

/-- A text begins with a longest run of such characters. -/
theorem exists_run (p : Char → Bool) (t : List Char) :
    ∃ run rest, t = run ++ rest ∧ (∀ c ∈ run, p c) ∧ Stops p rest := by
  induction t with
  | nil => exact ⟨[], [], rfl, by simp, by simp⟩
  | cons c t ih =>
    by_cases hc : p c
    · obtain ⟨run, rest, rfl, hr, hs⟩ := ih
      refine ⟨c :: run, rest, rfl, ?_, hs⟩
      intro a ha
      rcases List.mem_cons.1 ha with rfl | ha
      · exact hc
      · exact hr a ha
    · exact ⟨[], c :: t, rfl, by simp, by simpa using hc⟩

/-! ### Lexemes -/

/-- A run of digits with at least one of them. -/
def IsNumeral (ds : List Char) : Prop := ds ≠ [] ∧ ∀ d ∈ ds, isDigit d

namespace Lexeme

/-- The lexeme is one of the configuration's. -/
def Formed (x : Configuration) : Lexeme → Prop
  | name c cs => (isLetter c ∨ c ∈ x.sigils .name) ∧ ∀ a ∈ cs, isAlphanumeric a
  | marker k c cs => c ∈ x.sigils (.marker k) ∧ ∀ a ∈ cs, a ∈ k.body
  | punctuation c => c ∈ Alphabet.punctuation
  | operator c => c ∈ operators
  | integer ds => IsNumeral ds
  | ratio ds es => IsNumeral ds ∧ IsNumeral es

/-- The digit runs of a number. -/
def numerals : Lexeme → List (List Char)
  | integer ds => [ds]
  | ratio ds es => [ds, es]
  | _ => []

/-- No numeral is too long to convert. -/
def Short (l : Lexeme) : Prop := ∀ ds ∈ l.numerals, ds.length ≤ Numeral.limit

/-- Whether a character right after the lexeme would go on with it. -/
def goesOn : Lexeme → Char → Bool
  | name _ _ => isAlphanumeric
  | marker k _ _ => (· ∈ k.body)
  | punctuation _ | operator _ => fun _ => false
  | integer _ => fun c => isDigit c || c = slash
  | ratio _ _ => isDigit

/-- The rule that reads the lexeme. -/
def rule : Lexeme → Rule
  | name _ _ => .name
  | marker k _ _ => .marker k
  | punctuation _ => .punctuation
  | operator _ => .operator
  | integer _ | ratio _ _ => .number

theorem excess?_eq_none_iff {l : Lexeme} : l.excess? = none ↔ l.Short := by
  cases l <;> simp [excess?, Short, numerals, Numeral.excess?]

theorem text_ne_nil {x : Configuration} {l : Lexeme} (h : l.Formed x) : l.text ≠ [] := by
  cases l with
  | integer ds => exact h.1
  | ratio ds es => simp [text]
  | _ => simp [text]

/-- The rule of a lexeme claims the place where it begins. -/
theorem accepts_of_formed {x : Configuration} {l : Lexeme} (h : l.Formed x) {c : Char}
    {cs : List Char} (ht : l.text = c :: cs) (next : Option Char) : l.rule.accepts x c next := by
  cases l with
  | name a as =>
    obtain ⟨rfl, rfl⟩ := List.cons.inj ht
    simpa [rule, Rule.accepts] using h.1
  | marker k a as =>
    obtain ⟨rfl, rfl⟩ := List.cons.inj ht
    simpa [rule, Rule.accepts] using h.1
  | punctuation a =>
    obtain ⟨rfl, rfl⟩ := List.cons.inj ht
    simpa [rule, Rule.accepts, Formed] using h
  | operator a =>
    obtain ⟨rfl, rfl⟩ := List.cons.inj ht
    simpa [rule, Rule.accepts, Formed] using h
  | integer ds =>
    have hd : isDigit c := h.2 c (by simp_all [text])
    simp [rule, Rule.accepts, hd]
  | ratio ds es =>
    obtain ⟨d, ds', rfl⟩ := List.exists_cons_of_ne_nil h.1.1
    obtain ⟨rfl, -⟩ := List.cons.inj ht
    have hd : isDigit d := h.1.2 d (by simp)
    simp [rule, Rule.accepts, hd]

/-! ### Their characters -/

variable {s : Settings} {l : Lexeme}

/-- A lexeme is gone on with by no blank. -/
theorem not_isBlank_of_goesOn {c : Char} (h : l.goesOn c) : ¬ isBlank c := by
  have digit : ∀ c ∈ digits, c ∉ blanks := Rule.not_mem_of_all (by decide)
  have alphanumeric : ∀ c ∈ alphanumerics, c ∉ blanks := Rule.not_mem_of_all (by decide)
  simp only [isBlank, decide_eq_true_eq]
  cases l with
  | name a as => exact alphanumeric c (by simpa [goesOn, isAlphanumeric] using h)
  | marker k a as =>
    have body : ∀ c ∈ k.body, c ∉ blanks := by
      cases k <;> exact Rule.not_mem_of_all (by decide)
    exact body c (by simpa [goesOn] using h)
  | punctuation a => cases h
  | operator a => cases h
  | integer ds =>
    simp only [goesOn, isDigit, Bool.or_eq_true, decide_eq_true_eq] at h
    rcases h with h | rfl
    · exact digit c h
    · decide
  | ratio ds es => exact digit c (by simpa [goesOn, isDigit] using h)

/-- After its first character, a lexeme goes on, or else has the slash of a ratio. -/
theorem goesOn_of_mem_tail (h : l.Formed s.toConfiguration) {c : Char} (hc : c ∈ l.text.tail) :
    l.goesOn c ∨ c = slash := by
  cases l with
  | name a as => exact .inl (h.2 c hc)
  | marker k a as => exact .inl (by simpa [goesOn] using h.2 c hc)
  | punctuation a => cases hc
  | operator a => cases hc
  | integer ds =>
    have hd := h.2 c (List.mem_of_mem_tail hc)
    exact .inl (by simp [goesOn, hd])
  | ratio ds es =>
    have hmem := List.mem_of_mem_tail hc
    simp only [text, List.mem_append, List.mem_cons] at hmem
    rcases hmem with hmem | hmem | hmem
    · exact .inl (h.1.2 c hmem)
    · exact .inr hmem
    · exact .inl (h.2.2 c hmem)

theorem not_isBlank_of_mem (h : l.Formed s.toConfiguration) {c : Char} (hc : c ∈ l.text) :
    ¬ isBlank c := by
  obtain ⟨a, as, ht⟩ := List.exists_cons_of_ne_nil (text_ne_nil h)
  rw [ht] at hc
  rcases List.mem_cons.1 hc with rfl | hc
  · exact Rule.not_isBlank_of_accepts (accepts_of_formed h ht none)
  · rcases goesOn_of_mem_tail h (by rwa [ht]) with hg | rfl
    · exact not_isBlank_of_goesOn hg
    · decide

/-- No lexeme begins with a slash. -/
theorem ne_slash_of_text (h : l.Formed s.toConfiguration) {c : Char} {cs : List Char}
    (ht : l.text = c :: cs) : c ≠ slash := by
  rintro rfl
  have hcomment : Rule.comment.accepts s.toConfiguration slash (some slash) := by
    simp [Rule.accepts]
  have hrule : l.rule = .comment := Rule.accepts_unique (accepts_of_formed h ht _) hcomment
  cases l <;> cases hrule

end Lexeme

/-! ### Readers of lexemes -/

namespace Rule

theorem readNumber_integer {ds rest : List Char} (hd : IsNumeral ds)
    (hs : Stops (Lexeme.integer ds).goesOn rest) :
    readNumber (ds ++ rest) = convert (.integer ds) := by
  have hr : Stops isDigit rest := fun c hc hp => hs c hc (by simp [Lexeme.goesOn, hp])
  have hslash : ∀ t, rest ≠ '/' :: t := by
    rintro t rfl
    exact hs '/' rfl (by simp [Lexeme.goesOn, slash])
  obtain ⟨d, ds, rfl⟩ := List.exists_cons_of_ne_nil hd.1
  rw [readNumber, takeWhile_run hd.2 hr, dropWhile_run hd.2 hr]
  split
  · simp_all
  · next heq => exact absurd rfl (hslash _)
  · simp_all

theorem readNumber_slash {ds rest : List Char} (hd : IsNumeral ds) :
    readNumber (ds ++ slash :: rest) = match rest.takeWhile isDigit with
      | [] => .fault .missingDenominator (ds ++ [slash])
      | es => convert (.ratio ds es) := by
  have hs : Stops isDigit (slash :: rest) := stops_cons.2 (by decide)
  obtain ⟨d, ds, rfl⟩ := List.exists_cons_of_ne_nil hd.1
  rw [readNumber, takeWhile_run hd.2 hs, dropWhile_run hd.2 hs]
  rfl

theorem readNumber_ratio {ds es rest : List Char} (hd : IsNumeral ds) (he : IsNumeral es)
    (hs : Stops isDigit rest) :
    readNumber (ds ++ slash :: (es ++ rest)) = convert (.ratio ds es) := by
  obtain ⟨e, es, rfl⟩ := List.exists_cons_of_ne_nil he.1
  rw [readNumber_slash hd, takeWhile_run he.2 hs]

theorem readNumber_missingDenominator {ds rest : List Char} (hd : IsNumeral ds)
    (hs : Stops isDigit rest) :
    readNumber (ds ++ slash :: rest) = .fault .missingDenominator (ds ++ [slash]) := by
  rw [readNumber_slash hd, takeWhile_of_stops hs]

theorem readNumber_missingNumerator (rest : List Char) :
    readNumber (slash :: rest) = .fault .missingNumerator [] := rfl

/-- The reader of a lexeme's rule takes the lexeme, if the text does not go on with it. -/
theorem read_formed {x : Configuration} {l : Lexeme} (h : l.Formed x) {rest : List Char}
    (hs : Stops l.goesOn rest) {c : Char} {cs : List Char} (ht : l.text = c :: cs) :
    l.rule.read c (cs ++ rest) = convert l := by
  cases l with
  | name a as =>
    obtain ⟨rfl, rfl⟩ := List.cons.inj ht
    simp only [Lexeme.rule, read, takeWhile_run h.2 hs]
    rfl
  | marker k a as =>
    obtain ⟨rfl, rfl⟩ := List.cons.inj ht
    have hk : ∀ a ∈ as, decide (a ∈ k.body) = true := by simpa using h.2
    simp only [Lexeme.rule, read, takeWhile_run hk hs]
    rfl
  | punctuation a =>
    obtain ⟨rfl, rfl⟩ := List.cons.inj ht
    rfl
  | operator a =>
    obtain ⟨rfl, rfl⟩ := List.cons.inj ht
    rfl
  | integer ds =>
    have hc : c :: (cs ++ rest) = ds ++ rest := by rw [← List.cons_append, ← ht, Lexeme.text]
    simp only [Lexeme.rule, read, hc]
    exact readNumber_integer h hs
  | ratio ds es =>
    have hc : c :: (cs ++ rest) = ds ++ slash :: (es ++ rest) := by
      rw [← List.cons_append, ← ht, Lexeme.text, List.append_assoc, List.cons_append]
    simp only [Lexeme.rule, read, hc]
    exact readNumber_ratio h.1 h.2 hs

end Rule

/-! ### Pieces -/

/-- The text at the head is what the piece says of it. -/
def Piece.Heads (x : Configuration) (t : List Char) : Piece → Prop
  | blank b => b ≠ [] ∧ (∀ c ∈ b, isBlank c) ∧ ∃ rest, t = b ++ rest
  | comment b => ∃ body rest,
      b = slash :: slash :: body ∧ '\n' ∉ body ∧ t = b ++ rest ∧ AtLineEnd rest
  | lexeme l => l.Formed x ∧ l.Short ∧ ∃ rest, t = l.text ++ rest ∧ Stops l.goesOn rest
  | fault (.unexpectedCharacter c) spent => spent = [] ∧ ¬ isBlank c ∧
      ∃ rest, t = c :: rest ∧ ∀ r : Rule, ¬ r.accepts x c rest.head?
  | fault .missingNumerator spent => spent = [] ∧
      ∃ d rest, t = slash :: d :: rest ∧ isDigit d
  | fault .missingDenominator spent => ∃ ds rest,
      spent = ds ++ [slash] ∧ IsNumeral ds ∧ t = spent ++ rest ∧ Stops isDigit rest
  | fault (.numeralTooLong n) spent => ∃ (l : Lexeme) (rest : List Char),
      spent = l.text ∧ l.Formed x ∧ l.excess? = some n ∧ t = spent ++ rest ∧ Stops l.goesOn rest
  | fault (.stalled _) _ => False
  | finish => t = []

/-- A piece takes up the beginning of the text. -/
theorem Piece.Heads.exists_rest {x : Configuration} {t : List Char} {p : Piece}
    (h : p.Heads x t) : ∃ rest, t = p.text ++ rest := by
  cases p with
  | blank b => exact h.2.2
  | comment b =>
    obtain ⟨-, rest, -, -, ht, -⟩ := h
    exact ⟨rest, ht⟩
  | lexeme l =>
    obtain ⟨-, -, rest, ht, -⟩ := h
    exact ⟨rest, ht⟩
  | fault f spent =>
    cases f with
    | unexpectedCharacter c => exact ⟨t, by rw [text, h.1, List.nil_append]⟩
    | missingNumerator => exact ⟨t, by rw [text, h.1, List.nil_append]⟩
    | missingDenominator =>
      obtain ⟨-, rest, -, -, ht, -⟩ := h
      exact ⟨rest, ht⟩
    | stalled r => exact h.elim
    | numeralTooLong n =>
      obtain ⟨-, rest, -, -, -, ht, -⟩ := h
      exact ⟨rest, ht⟩
  | finish => exact ⟨t, rfl⟩

/-- The lexer of some settings, every reader in service. -/
abbrev Settings.lexer (s : Settings) : Lexer := { settings := s }

namespace Lexer

variable {s : Settings}

theorem rule?_lexer_iff {c : Char} {next : Option Char} {r : Rule} :
    s.lexer.rule? c next = some r ↔ r.accepts s.toConfiguration c next :=
  rule?_eq_some_iff Rule.mem_priority

theorem piece_of_accepts {c : Char} {rest : List Char} {r : Rule}
    (h : r.accepts s.toConfiguration c rest.head?) :
    s.lexer.piece (c :: rest) = .ofReading r (r.read c rest) := by
  rw [piece, if_neg (Rule.not_isBlank_of_accepts h), rule?_lexer_iff.2 h]
  rfl

/-- A well-formed lexeme is cut off, unless a numeral of it is too long. -/
theorem piece_formed {l : Lexeme} (h : l.Formed s.toConfiguration) {rest : List Char}
    (hs : Stops l.goesOn rest) : s.lexer.piece (l.text ++ rest) =
      match l.excess? with
      | none => .lexeme l
      | some n => .fault (.numeralTooLong n) l.text := by
  have hn := Lexeme.text_ne_nil h
  obtain ⟨c, cs, ht⟩ := List.exists_cons_of_ne_nil hn
  have ha := Lexeme.accepts_of_formed h ht (cs ++ rest).head?
  have hr := Rule.read_formed h hs ht
  rw [ht, List.cons_append, piece_of_accepts ha, hr, Rule.convert, ← ht]
  cases l.excess? with
  | none => simp [Piece.ofReading, hn]
  | some n => rfl

theorem piece_lexeme {l : Lexeme} (h : l.Formed s.toConfiguration) (hl : l.Short)
    {rest : List Char} (hs : Stops l.goesOn rest) : s.lexer.piece (l.text ++ rest) = .lexeme l := by
  rw [piece_formed h hs, Lexeme.excess?_eq_none_iff.2 hl]

theorem piece_comment {body rest : List Char} (hb : '\n' ∉ body) (hr : AtLineEnd rest) :
    s.lexer.piece (slash :: slash :: body ++ rest) = .comment (slash :: slash :: body) := by
  have ha : Rule.comment.accepts s.toConfiguration slash (slash :: (body ++ rest)).head? := rfl
  have hrun : ∀ c ∈ slash :: slash :: body, decide (c ≠ '\n') = true := by
    intro c hc
    rw [decide_eq_true_eq]
    rintro rfl
    simp only [List.mem_cons] at hc
    rcases hc with hc | hc | hc
    · exact absurd hc (by decide)
    · exact absurd hc (by decide)
    · exact hb hc
  rw [List.cons_append, List.cons_append, piece_of_accepts ha]
  simp only [Rule.read, ← List.cons_append, takeWhile_run hrun hr]
  rfl

/-- All but the blanks, which are cut off in one run, stand in the text in one way only. -/
theorem piece_of_heads {t : List Char} {p : Piece} (hb : ∀ b, p ≠ .blank b)
    (h : p.Heads s.toConfiguration t) : s.lexer.piece t = p := by
  cases p with
  | blank b => exact absurd rfl (hb b)
  | comment b =>
    obtain ⟨body, rest, rfl, hbody, rfl, hr⟩ := h
    exact piece_comment hbody hr
  | lexeme l =>
    obtain ⟨hf, hl, rest, rfl, hr⟩ := h
    exact piece_lexeme hf hl hr
  | fault f spent =>
    cases f with
    | unexpectedCharacter c =>
      obtain ⟨rfl, hc, rest, rfl, hr⟩ := h
      have hn : s.lexer.rule? c rest.head? = none := by
        cases hr' : s.lexer.rule? c rest.head? with
        | none => rfl
        | some r => exact absurd (rule?_lexer_iff.1 hr') (hr r)
      rw [piece, if_neg hc, hn]
    | missingNumerator =>
      obtain ⟨rfl, d, rest, rfl, hd⟩ := h
      have ha : Rule.number.accepts s.toConfiguration slash (d :: rest).head? := by
        simp [Rule.accepts, hd]
      rw [piece_of_accepts ha, Rule.read, Rule.readNumber_missingNumerator]
      rfl
    | missingDenominator =>
      obtain ⟨ds, rest, rfl, hd, rfl, hr⟩ := h
      obtain ⟨d, ds, rfl⟩ := List.exists_cons_of_ne_nil hd.1
      have hdigit : isDigit d := hd.2 d List.mem_cons_self
      have ha : Rule.number.accepts s.toConfiguration d (ds ++ [slash] ++ rest).head? := by
        simp [Rule.accepts, hdigit]
      have hread := Rule.readNumber_missingDenominator hd hr
      rw [List.append_assoc, List.singleton_append] at ha ⊢
      rw [List.cons_append] at hread ⊢
      rw [piece_of_accepts ha, Rule.read, hread]
      rfl
    | stalled r => exact h.elim
    | numeralTooLong n =>
      obtain ⟨l, rest, rfl, hf, he, rfl, hr⟩ := h
      rw [piece_formed hf hr, he]
  | finish =>
    obtain rfl : t = [] := h
    rfl

theorem heads_piece_of_heads {t : List Char} {p : Piece} (hb : ∀ b, p ≠ .blank b)
    (h : p.Heads s.toConfiguration t) : (s.lexer.piece t).Heads s.toConfiguration t := by
  rwa [piece_of_heads hb h]

theorem heads_piece_formed {l : Lexeme} (h : l.Formed s.toConfiguration) {rest : List Char}
    (hs : Stops l.goesOn rest) :
    (s.lexer.piece (l.text ++ rest)).Heads s.toConfiguration (l.text ++ rest) := by
  rw [piece_formed h hs]
  cases he : l.excess? with
  | none => exact ⟨h, Lexeme.excess?_eq_none_iff.1 he, rest, rfl, hs⟩
  | some n => exact ⟨l, rest, rfl, h, he, rfl, hs⟩

/-- A text that begins with a digit: an integer, a ratio, or a slash without a denominator. -/
theorem heads_piece_digit {c : Char} {rest : List Char} (hc : isDigit c) :
    (s.lexer.piece (c :: rest)).Heads s.toConfiguration (c :: rest) := by
  obtain ⟨ds, t, ht, hds, hst⟩ := exists_run isDigit (c :: rest)
  have hd : IsNumeral ds := by
    refine ⟨?_, hds⟩
    rintro rfl
    rw [List.nil_append] at ht
    exact stops_cons.1 (ht ▸ hst) hc
  by_cases hslash : ∃ u, t = slash :: u
  · obtain ⟨u, rfl⟩ := hslash
    obtain ⟨es, v, rfl, hes, hsv⟩ := exists_run isDigit u
    by_cases he : es = []
    · subst he
      have hh : (Piece.fault .missingDenominator (ds ++ [slash])).Heads s.toConfiguration
          (c :: rest) := ⟨ds, v, rfl, hd, by simp [ht], hsv⟩
      exact heads_piece_of_heads (by simp) hh
    · have hl : (Lexeme.ratio ds es).text ++ v = c :: rest := by
        rw [ht, Lexeme.text, List.append_assoc, List.cons_append]
      rw [← hl]
      exact heads_piece_formed (l := .ratio ds es) ⟨hd, he, hes⟩ hsv
  · rw [ht]
    refine heads_piece_formed (l := .integer ds) hd fun a ha hp => ?_
    rcases Bool.or_eq_true_iff.1 hp with hp | hp
    · exact hst a ha hp
    · obtain ⟨u, rfl⟩ := List.head?_eq_some_iff.1 ha
      exact hslash ⟨u, by rw [of_decide_eq_true hp]⟩

/-- A slash before a digit is not read. -/
theorem heads_piece_slash {d : Char} {rest : List Char} (hd : isDigit d) :
    (s.lexer.piece (slash :: d :: rest)).Heads s.toConfiguration (slash :: d :: rest) := by
  have hh : (Piece.fault .missingNumerator []).Heads s.toConfiguration (slash :: d :: rest) :=
    ⟨rfl, d, rest, rfl, hd⟩
  exact heads_piece_of_heads (by simp) hh

/-- What the lexer cuts off a text is what it says to stand there. -/
theorem heads_piece (s : Settings) (t : List Char) :
    (s.lexer.piece t).Heads s.toConfiguration t := by
  cases t with
  | nil =>
    rw [piece]
    rfl
  | cons c rest =>
    by_cases hb : isBlank c
    · obtain ⟨bs, u, rfl, hbs, hsu⟩ := exists_run isBlank rest
      rw [piece, if_pos hb, takeWhile_run hbs hsu]
      refine ⟨by simp, ?_, u, rfl⟩
      intro a ha
      rcases List.mem_cons.1 ha with rfl | ha
      · exact hb
      · exact hbs a ha
    · cases hr : s.lexer.rule? c rest.head? with
      | none =>
        rw [piece, if_neg hb, hr]
        refine ⟨rfl, hb, rest, rfl, fun r hr' => ?_⟩
        simp [rule?_lexer_iff.2 hr'] at hr
      | some r =>
        have ha := rule?_lexer_iff.1 hr
        cases r with
        | comment =>
          simp only [Rule.accepts, Bool.and_eq_true, decide_eq_true_eq] at ha
          obtain ⟨rfl, hn⟩ := ha
          obtain ⟨rest, rfl⟩ := List.head?_eq_some_iff.1 hn
          obtain ⟨body, u, rfl, hbody, hsu⟩ := exists_run (· ≠ '\n') rest
          have hnl : '\n' ∉ body := fun h => by simpa using hbody _ h
          rw [← List.cons_append, ← List.cons_append, piece_comment hnl hsu]
          exact ⟨body, u, rfl, hnl, rfl, hsu⟩
        | name =>
          obtain ⟨cs, u, rfl, hcs, hsu⟩ := exists_run isAlphanumeric rest
          have hf : (Lexeme.name c cs).Formed s.toConfiguration :=
            ⟨by simpa [Rule.accepts] using ha, hcs⟩
          exact heads_piece_formed hf hsu
        | marker k =>
          obtain ⟨cs, u, rfl, hcs, hsu⟩ := exists_run (· ∈ k.body) rest
          have hf : (Lexeme.marker k c cs).Formed s.toConfiguration :=
            ⟨by simpa [Rule.accepts] using ha, by simpa using hcs⟩
          exact heads_piece_formed hf hsu
        | punctuation =>
          have hf : (Lexeme.punctuation c).Formed s.toConfiguration := by
            simpa [Rule.accepts, Lexeme.Formed] using ha
          exact heads_piece_formed hf (by simp [Stops, Lexeme.goesOn])
        | operator =>
          have hf : (Lexeme.operator c).Formed s.toConfiguration := by
            simpa [Rule.accepts, Lexeme.Formed] using ha
          exact heads_piece_formed hf (by simp [Stops, Lexeme.goesOn])
        | number =>
          simp only [Rule.accepts, Bool.or_eq_true, Bool.and_eq_true, decide_eq_true_eq] at ha
          rcases ha with hc | ⟨rfl, hn⟩
          · exact heads_piece_digit hc
          · cases rest with
            | nil => simp at hn
            | cons d rest => exact heads_piece_slash (by simpa using hn)

/-- A piece is no longer than the text it is cut off. -/
theorem length_text_le {t : List Char} {p : Piece} (h : s.lexer.piece t = p) :
    p.text.length ≤ t.length := by
  have hh := heads_piece s t
  obtain ⟨rest, ht⟩ := hh.exists_rest
  rw [h] at ht
  rw [ht, List.length_append]
  omega

end Lexer

end BeatNotation
