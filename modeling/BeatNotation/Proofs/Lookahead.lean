import BeatNotation.Proofs.Sequence

/-! How far ahead the reads look. A lexeme and a comment end where the next character says so,
and the character after that one has no part in it. So reads that have brought tokens, and have
left some of the text, come to the same before any text that shares one more character with it. -/

namespace BeatNotation

open Alphabet

/-- The cursors stand alike, and the texts ahead of them begin alike: after some characters that
they share, there is `rest` in one and `rest'` in the other. -/
structure Cursor.Shares (rest rest' : List Char) (c c' : Cursor) : Prop where
  file : c'.file = c.file
  offset : c'.offset = c.offset
  position : c'.position = c.position
  ahead : ∃ u, u ≠ [] ∧ c.ahead = u ++ rest ∧ c'.ahead = u ++ rest'

namespace Cursor.Shares

variable {rest rest' : List Char} {c c' : Cursor}

/-- The cursors still stand alike after as many characters as leave one that they share. -/
theorem pass (h : Shares rest rest' c c') {n : Nat} (hn : rest.length < (c.pass n).ahead.length) :
    Shares rest rest' (c.pass n) (c'.pass n) := by
  obtain ⟨u, -, hc, hc'⟩ := h.ahead
  have hlt : n < u.length := by
    rw [ahead_pass, hc, List.length_drop, List.length_append] at hn
    omega
  have hle := Nat.le_of_lt hlt
  refine ⟨?_, ?_, ?_, u.drop n, ?_, ?_, ?_⟩
  · rw [file_pass, file_pass, h.file]
  · rw [offset_pass, offset_pass, hc, hc', List.length_append, List.length_append,
      Nat.min_eq_left (Nat.le_add_right_of_le hle), Nat.min_eq_left (Nat.le_add_right_of_le hle),
      h.offset]
  · rw [position_pass, position_pass, hc, hc', List.take_append_of_le_length hle,
      List.take_append_of_le_length hle, h.position]
  · exact fun hnil => Nat.not_le_of_lt hlt (List.drop_eq_nil_iff.1 hnil)
  · rw [ahead_pass, hc, List.drop_append_of_le_length hle]
  · rw [ahead_pass, hc', List.drop_append_of_le_length hle]

/-- What is ahead of the one cursor, up to a character that they share, is ahead of the other,
and what comes next begins alike. -/
theorem exists_rest (h : Shares rest rest' c c') {t v : List Char} (hc : c.ahead = t ++ v)
    (hv : rest.length < v.length) : ∃ v', c'.ahead = t ++ v' ∧ ∀ a ∈ v'.head?, a ∈ v.head? := by
  obtain ⟨w, -, hw, hw'⟩ := h.ahead
  rcases List.append_eq_append_iff.1 (hc.symm.trans hw) with ⟨u, rfl, rfl⟩ | ⟨u, rfl, rfl⟩
  · cases u with
    | nil => exact absurd hv (Nat.lt_irrefl _)
    | cons a u => exact ⟨a :: u ++ rest', by rw [hw', List.append_assoc], fun _ => id⟩
  · exact absurd hv (by simp)

variable {s : Settings}

theorem piece_lexeme (h : Shares rest rest' c c') {l : Lexeme}
    (hp : s.lexer.piece c.ahead = .lexeme l)
    (hl : rest.length < (c.pass l.text.length).ahead.length) :
    s.lexer.piece c'.ahead = .lexeme l := by
  have hh := Lexer.heads_piece s c.ahead
  rw [hp] at hh
  obtain ⟨hf, hshort, v, hc, hs⟩ := hh
  rw [ahead_pass_length hc] at hl
  obtain ⟨v', hc', hhead⟩ := h.exists_rest hc hl
  rw [hc', Lexer.piece_lexeme hf hshort (hs.of_head hhead)]

theorem piece_comment (h : Shares rest rest' c c') {b : List Char}
    (hp : s.lexer.piece c.ahead = .comment b)
    (hl : rest.length < (c.pass b.length).ahead.length) : s.lexer.piece c'.ahead = .comment b := by
  have hh := Lexer.heads_piece s c.ahead
  rw [hp] at hh
  obtain ⟨body, v, rfl, hb, hc, he⟩ := hh
  rw [ahead_pass_length hc] at hl
  obtain ⟨v', hc', hhead⟩ := h.exists_rest hc hl
  rw [hc', Lexer.piece_comment hb (Stops.of_head he hhead)]

/-- A read of the other text passes over the same blanks. -/
theorem read_blank (h : Shares rest rest' c c') {b : List Char}
    (hp : s.lexer.piece c.ahead = .blank b)
    (hl : rest.length < (c.pass b.length).ahead.length) :
    s.lexer.read c' = s.lexer.read (c'.pass b.length) := by
  have hh := Lexer.heads_piece s c.ahead
  rw [hp] at hh
  obtain ⟨-, hb, v, hc⟩ := hh
  rw [ahead_pass_length hc] at hl
  obtain ⟨v', hc', -⟩ := h.exists_rest hc hl
  exact Lexer.read_blanks hb hc'

/-- A read that brings a token, and leaves a character that the texts share, is a read of both. -/
theorem read (h : Shares rest rest' c c') {t : Token} (ht : (s.lexer.read c).result = .token t)
    (hl : rest.length < (s.lexer.read c).state.ahead.length) :
    Reply.Alike (Shares rest rest') (s.lexer.read c) (s.lexer.read c') := by
  induction c using Lexer.readInduction s.lexer generalizing c' with
  | blank c b hp ih =>
    rw [Lexer.read_of_blank hp] at ht hl ⊢
    have hleft := Nat.lt_of_lt_of_le hl (s.lexer.length_ahead_read_le _)
    rw [h.read_blank hp hleft]
    exact ih (h.pass hleft) ht hl
  | comment c b hp ih =>
    rw [Lexer.read_of_comment hp] at ht hl ⊢
    have hleft := Nat.lt_of_lt_of_le hl (s.lexer.length_ahead_read_le _)
    obtain ⟨hresult, hremarks, hstate⟩ := ih (h.pass hleft) ht hl
    rw [Lexer.read_of_comment (h.piece_comment hp hleft), h.position, ← hremarks]
    exact ⟨hresult, rfl, hstate⟩
  | lexeme c l hp =>
    rw [Lexer.read_of_lexeme hp] at hl ⊢
    rw [Lexer.read_of_lexeme (h.piece_lexeme hp hl), Cursor.location, Cursor.location, h.position,
      h.file]
    exact ⟨rfl, rfl, h.pass hl⟩
  | fault c f spent hp =>
    rw [Lexer.read_of_fault hp] at ht
    cases ht
  | finish c hp =>
    rw [Lexer.read_of_finish hp] at ht
    cases ht

/-- Reads that bring tokens, and leave a character that the texts share, are reads of both. -/
theorem reads (h : Shares rest rest' c c') {n : Nat}
    (ht : ∀ o ∈ (s.lexer.reads c n).result, ∃ t, o = .token t)
    (hl : rest.length < (s.lexer.reads c n).state.ahead.length) :
    Reply.Alike (Shares rest rest') (s.lexer.reads c n) (s.lexer.reads c' n) := by
  let such (r : Reply Cursor Outcome) :=
    (∃ t, r.result = .token t) ∧ rest.length < r.state.ahead.length
  have hread : ∀ d d', Shares rest rest' d d' → such (s.lexer.read d) →
      Reply.Alike (Shares rest rest') ((s.lexer.read d).map id id) (s.lexer.read d') := by
    rintro d d' hd ⟨⟨t, hr⟩, hleft⟩
    simpa only [Reply.map, id, List.map_id] using hd.read hr hleft
  have hsuch : ∀ m < n, such (s.lexer.read (s.lexer.reads c m).state) := by
    intro m hm
    have hle := s.lexer.length_ahead_reads_le c (Nat.succ_le_of_lt hm)
    rw [Lexer.reads_succ] at hle
    exact ⟨Lexer.read_of_forall_reads ht hm, Nat.lt_of_lt_of_le hl hle⟩
  simpa only [Reply.map, List.map_id] using Lexer.reads_alike such hread h hsuch

end Cursor.Shares

theorem Outcome.isSome_token?_iff {o : Outcome} : o.token?.isSome ↔ ∃ t, o = .token t := by
  cases o <;> simp [token?]

/-- Texts that are alike up to a place share the character that stands there. -/
theorem Cursor.shares_start {source source' : List Char} {p : Nat} (hp : p < source.length)
    (hsame : source'.take (p + 1) = source.take (p + 1)) (file : String) :
    Shares (source.drop (p + 1)) (source'.drop (p + 1)) (start file source)
      (start file source') := by
  refine ⟨rfl, rfl, rfl, source.take (p + 1), ?_, (List.take_append_drop _ _).symm, ?_⟩
  · intro hnil
    rcases List.take_eq_nil_iff.1 hnil with h | rfl
    · cases h
    · exact Nat.not_lt_zero p hp
  · rw [← hsame]
    exact (List.take_append_drop _ _).symm

/-- Reads that have all brought tokens, and have not come to the end of the text, depend on no
more of it than one character past where they stand. -/
theorem Scanner.nexts_look_one_ahead (s : Settings) (file? : Option String)
    (source source' : List Char) (n : Nat) :
    let first := (Scanner.start s.lexer file? source).nexts n
    let second := (Scanner.start s.lexer file? source').nexts n
    let p := first.state.cursor.offset
    (∀ o ∈ first.result, o.token?.isSome) → p < source.length →
      source'.take (p + 1) = source.take (p + 1) →
      second.result = first.result ∧ second.remarks = first.remarks ∧
        second.state.cursor.offset = p ∧
        second.state.cursor.position = first.state.cursor.position := by
  intro first second p
  let c := Cursor.start (s.fileFor file?) source
  let c' := Cursor.start (s.fileFor file?) source'
  have hfirst : first = _ := nexts_eq_reads s.lexer c n
  have hsecond : second = _ := nexts_eq_reads s.lexer c' n
  simp only [p, hfirst, hsecond]
  intro ht hp hsame
  have hleft : (source.drop ((s.lexer.reads c n).state.offset + 1)).length <
      (s.lexer.reads c n).state.ahead.length := by
    obtain ⟨k, hk⟩ := s.lexer.exists_pass_reads c n
    have hsource : (s.lexer.reads c n).state.source = source := by
      rw [hk, Cursor.source_pass]
      rfl
    have hplaced : (s.lexer.reads c n).state.Placed := hk ▸ (Cursor.placed_start _ source).pass k
    have hlength := hplaced.offset_add_length_ahead
    rw [hsource] at hlength
    rw [List.length_drop]
    omega
  have htokens : ∀ o ∈ (s.lexer.reads c n).result, ∃ t, o = .token t := fun o ho =>
    Outcome.isSome_token?_iff.1 (ht o ho)
  obtain ⟨hresult, hremarks, hstate⟩ := (Cursor.shares_start hp hsame _).reads htokens hleft
  exact ⟨hresult.symm, hremarks.symm, hstate.offset, hstate.position⟩

/-- The first token is the same before a character that opens nothing and before a slash. -/
theorem Scanner.nexts_look_one_ahead_faults :
    ((Scanner.start Settings.standard.lexer none ['4', ' ', '/', '4']).nexts 1).result =
      ((Scanner.start Settings.standard.lexer none ['4', ' ', '!']).nexts 1).result :=
  (nexts_look_one_ahead .standard none ['4', ' ', '!'] ['4', ' ', '/', '4'] 1 (by decide +kernel)
    (by decide +kernel) (by decide +kernel)).1

end BeatNotation
