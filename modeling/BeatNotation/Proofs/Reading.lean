import BeatNotation.Proofs.Grammar

/-! What a read does, piece by piece: it passes over a gap, blank by blank and comment by
comment, and the piece after the gap decides its outcome. A drain is a read and, after a
token, a drain of the rest. -/

namespace BeatNotation

open Alphabet

/-- Blanks and comments before the rest of a text. A comment goes on to the end of its line. -/
inductive Gap : List Char → List Char → Prop
  | nil {rest} : Gap [] rest
  | blank {c g rest} : isBlank c → Gap g rest → Gap (c :: g) rest
  | comment {body g rest} : '\n' ∉ body → AtLineEnd (g ++ rest) → Gap g rest →
      Gap (slash :: slash :: body ++ g) rest

/-- A gap stays one before any rest that begins as the one it is before, or is empty. -/
theorem Gap.of_head {g rest rest' : List Char} (hg : Gap g rest)
    (h : ∀ c ∈ rest'.head?, c ∈ rest.head?) : Gap g rest' := by
  induction hg with
  | nil => exact .nil
  | blank hc _ ih => exact .blank hc (ih h)
  | comment hb he _ ih => exact .comment hb (Stops.of_head he (head_append_of_head h _)) (ih h)

theorem Gap.blanks {b g rest : List Char} (hb : ∀ c ∈ b, isBlank c) (hg : Gap g rest) :
    Gap (b ++ g) rest := by
  induction b with
  | nil => exact hg
  | cons c b ih => exact .blank (hb c (by simp)) (ih fun a ha => hb a (by simp [ha]))

/-- A piece that a read passes over. -/
def Piece.isGap : Piece → Bool
  | blank _ | comment _ => true
  | _ => false

namespace Lexer

variable {x : Lexer} {s : Settings} {c : Cursor}

/-! ### Gaps -/

/-- Blanks are passed over one by one, however the lexer cuts them. -/
theorem read_blank {a : Char} {rest : List Char} (ha : isBlank a) (hc : c.ahead = a :: rest) :
    x.read c = x.read (c.pass 1) := by
  have hp : x.piece c.ahead = .blank (a :: rest.takeWhile isBlank) := by
    rw [hc, piece, if_pos ha]
  have hn : (c.pass 1).ahead = rest := by rw [Cursor.ahead_pass, hc, List.drop_one, List.tail_cons]
  rw [read_of_blank hp, List.length_cons, Nat.add_comm, Cursor.pass_add]
  cases rest with
  | nil => rfl
  | cons b rest =>
    by_cases hb : isBlank b
    · have hq : x.piece (c.pass 1).ahead = .blank ((b :: rest).takeWhile isBlank) := by
        rw [hn, piece, if_pos hb, List.takeWhile_cons_of_pos hb]
      rw [read_of_blank hq]
    · rw [List.takeWhile_cons_of_neg hb]
      rfl

theorem read_blanks {b rest : List Char} (hb : ∀ a ∈ b, isBlank a) (hc : c.ahead = b ++ rest) :
    x.read c = x.read (c.pass b.length) := by
  induction b generalizing c with
  | nil => rfl
  | cons a b ih =>
    have hn : (c.pass 1).ahead = b ++ rest := by
      rw [Cursor.ahead_pass, hc, List.cons_append, List.drop_one, List.tail_cons]
    rw [read_blank (hb a (by simp)) hc, ih (fun d hd => hb d (by simp [hd])) hn,
      ← Cursor.pass_add, Nat.add_comm, List.length_cons]

/-- A gap ahead has no part in what a read comes to and where it stops. -/
theorem read_gap {g rest : List Char} (hg : Gap g rest) (hc : c.ahead = g ++ rest) :
    (s.lexer.read c).result = (s.lexer.read (c.pass g.length)).result ∧
      (s.lexer.read c).state = (s.lexer.read (c.pass g.length)).state := by
  induction hg generalizing c with
  | nil => exact ⟨rfl, rfl⟩
  | @blank a g rest ha hg ih =>
    have hn : (c.pass 1).ahead = g ++ rest := by
      rw [Cursor.ahead_pass, hc, List.cons_append, List.drop_one, List.tail_cons]
    rw [read_blank ha hc, List.length_cons, Nat.add_comm, Cursor.pass_add]
    exact ih hn
  | @comment body g rest hb he hg ih =>
    rw [List.append_assoc] at hc
    have hp : s.lexer.piece c.ahead = .comment (slash :: slash :: body) := by
      rw [hc, piece_comment hb he]
    have hn : (c.pass (slash :: slash :: body).length).ahead = g ++ rest := by
      rw [Cursor.ahead_pass, hc, List.drop_left]
    rw [read_of_comment hp, List.length_append, Cursor.pass_add]
    exact ih hn

/-- Every text begins with a gap, after which something else comes. -/
theorem exists_gap (s : Settings) (t : List Char) :
    ∃ g rest, t = g ++ rest ∧ Gap g rest ∧ (s.lexer.piece rest).isGap = false := by
  induction hn : t.length using Nat.strongRecOn generalizing t with
  | ind n ih =>
    have hh := heads_piece s t
    cases hp : s.lexer.piece t with
    | blank b =>
      rw [hp] at hh
      obtain ⟨hne, hb, rest, rfl⟩ := hh
      have hlt : rest.length < n := by
        have := List.length_pos_iff.2 hne
        rw [← hn, List.length_append]
        omega
      obtain ⟨g, u, rfl, hg, hu⟩ := ih _ hlt rest rfl
      exact ⟨b ++ g, u, by rw [List.append_assoc], hg.blanks hb, hu⟩
    | comment b =>
      rw [hp] at hh
      obtain ⟨body, rest, rfl, hb, rfl, he⟩ := hh
      have hlt : rest.length < n := by
        rw [← hn, List.length_append, List.length_cons]
        omega
      obtain ⟨g, u, rfl, hg, hu⟩ := ih _ hlt rest rfl
      exact ⟨slash :: slash :: body ++ g, u, by rw [List.append_assoc], .comment hb he hg, hu⟩
    | lexeme l => exact ⟨[], t, rfl, .nil, by rw [hp]; rfl⟩
    | fault f spent => exact ⟨[], t, rfl, .nil, by rw [hp]; rfl⟩
    | finish => exact ⟨[], t, rfl, .nil, by rw [hp]; rfl⟩

end Lexer

/-! ### Drains -/

namespace Scanner

/-- A drain begins with the next request, and goes on only after a token. -/
theorem drain_of_next {s after : Scanner} {o : Outcome} {remarks : List Remark}
    (h : s.next = ⟨o, after, remarks⟩) : s.drain = match o with
      | .token t => ⟨(t :: after.drain.result.1, after.drain.result.2), after.drain.state,
          remarks ++ after.drain.remarks⟩
      | .failure f => ⟨([], some f), after, remarks⟩
      | .finish => ⟨([], none), after, remarks⟩ := by
  rw [drain]
  split
  all_goals
    next hn =>
      cases h.symm.trans hn
      rfl

variable {x : Lexer} {c : Cursor}

theorem next_of_read {o : Outcome} (h : (x.read c).result = o) :
    (mk x c none).next = ⟨o, mk x (x.read c).state none, (x.read c).remarks⟩ := by
  rw [← h]
  rfl

theorem drain_of_token {t : Token} (h : (x.read c).result = .token t) :
    (mk x c none).drain =
      ⟨(t :: (mk x (x.read c).state none).drain.result.1,
          (mk x (x.read c).state none).drain.result.2),
        (mk x (x.read c).state none).drain.state,
        (x.read c).remarks ++ (mk x (x.read c).state none).drain.remarks⟩ :=
  drain_of_next (next_of_read h)

theorem drain_of_failure {f : Failure} (h : (x.read c).result = .failure f) :
    (mk x c none).drain = ⟨([], some f), mk x (x.read c).state none, (x.read c).remarks⟩ :=
  drain_of_next (next_of_read h)

theorem drain_of_finish (h : (x.read c).result = .finish) :
    (mk x c none).drain = ⟨([], none), mk x (x.read c).state none, (x.read c).remarks⟩ :=
  drain_of_next (next_of_read h)

/-- Reads that come to the same and stop alike are followed by the same. -/
theorem drain_of_read {d : Cursor} (hr : (x.read c).result = (x.read d).result)
    (hs : (x.read c).state = (x.read d).state) :
    (mk x c none).drain.result = (mk x d none).drain.result ∧
      (mk x c none).drain.state = (mk x d none).drain.state := by
  cases h : (x.read d).result with
  | token t => simp [drain_of_token h, drain_of_token (hr.trans h), hs]
  | failure f => simp [drain_of_failure h, drain_of_failure (hr.trans h), hs]
  | finish => simp [drain_of_finish h, drain_of_finish (hr.trans h), hs]

end Scanner

/-! ### Whole texts -/

variable {s : Settings} {file? : Option String} {source : List Char}

theorem tokenize_fst : (tokenize s file? source).1 =
    match (Scanner.start s.lexer file? source).drain.result.2 with
    | none => .ok (Scanner.start s.lexer file? source).drain.result.1
    | some f => .error f := by
  rw [tokenize]
  split <;> simp_all

theorem tokenize_snd :
    (tokenize s file? source).2 = (Scanner.start s.lexer file? source).drain.remarks := by
  rw [tokenize]
  split <;> simp_all

theorem tokenize_ok_iff {ts : List Token} : (tokenize s file? source).1 = .ok ts ↔
    (Scanner.start s.lexer file? source).drain.result = (ts, none) := by
  rw [tokenize_fst]
  split <;> simp_all [Prod.ext_iff]

theorem tokenize_error_iff {f : Failure} : (tokenize s file? source).1 = .error f ↔
    (Scanner.start s.lexer file? source).drain.result.2 = some f := by
  rw [tokenize_fst]
  split <;> simp_all

end BeatNotation
