import BeatNotation.Proofs.LineEnds
import BeatNotation.Proofs.Places
import BeatNotation.Text.Split

/-! Texts line by line. A text reads as its lines do one after another, every place moved
down to its line, up to the first line that fails. -/

namespace BeatNotation

/-! ### The start of a line -/

theorem Position.line_advance {t : List Char} (h : '\n' ∉ t) (p : Position) :
    (p.advance t).line = p.line := by
  induction t generalizing p with
  | nil => rfl
  | cons c t ih =>
    have hc : c ≠ '\n' := fun e => h (e ▸ List.mem_cons_self)
    rw [advance_cons, ih (fun m => h (List.mem_cons_of_mem _ m)), after, if_neg hc]

/-- The cursor is before the first character of line `i`. -/
structure Cursor.StartsLine (c : Cursor) (i : Nat) : Prop where
  position : c.position = ⟨i + 1, 0⟩
  lineStart : c.lineStart = c.offset

namespace Cursor.StartsLine

variable {c : Cursor} {i : Nat} {line rest : List Char}

theorem continues (h : c.StartsLine i) (ha : c.ahead = line ++ rest) (hline : '\n' ∉ line) :
    Continues i rest (.start c.file line) c where
  file := rfl
  inLine := hline
  ahead := ha
  position := by
    show c.position = ⟨1 + i, 0⟩
    rw [h.position, Nat.add_comm]
  fromStart := by
    rw [h.lineStart]
    exact ha

theorem next (h : c.StartsLine i) (ha : c.ahead = line ++ '\n' :: rest) (hline : '\n' ∉ line) :
    ((c.pass line.length).pass 1).StartsLine (i + 1) where
  position := by
    have hn : (c.pass line.length).ahead = '\n' :: rest := ahead_pass_length ha
    rw [position_pass, hn, position_pass, ha, List.take_left, h.position]
    simp [Position.after, Position.line_advance hline]
  lineStart := by
    have hn : (c.pass line.length).ahead = '\n' :: rest := ahead_pass_length ha
    rw [pass_succ, consume_of_cons hn]
    rfl

end Cursor.StartsLine

/-! ### Transcripts -/

/-- All that comes of a drain: the tokens, the failure that ends it, and the remarks. -/
structure Transcript where
  tokens : List Token := []
  failure? : Option Failure := none
  remarks : List Remark := []

namespace Transcript

def down (i : Nat) (t : Transcript) : Transcript :=
  ⟨t.tokens.map (·.down i), t.failure?.map (·.down i), t.remarks.map (·.down i)⟩

/-- One after another, unless the first ends in a failure. -/
def followedBy (t u : Transcript) : Transcript :=
  match t.failure? with
  | some _ => t
  | none => ⟨t.tokens ++ u.tokens, u.failure?, t.remarks ++ u.remarks⟩

/-- A read that delivers a token comes before the transcript of the rest. -/
def afterRead (t : Token) (remarks : List Remark) (u : Transcript) : Transcript :=
  ⟨t :: u.tokens, u.failure?, remarks ++ u.remarks⟩

theorem down_afterRead (i : Nat) (t : Token) (remarks : List Remark) (u : Transcript) :
    (afterRead t remarks u).down i =
      afterRead (t.down i) (remarks.map (·.down i)) (u.down i) := by
  simp [afterRead, down]

theorem afterRead_followedBy (t : Token) (remarks : List Remark) (u v : Transcript) :
    (afterRead t remarks u).followedBy v = afterRead t remarks (u.followedBy v) := by
  cases hu : u.failure? <;> simp [followedBy, afterRead, hu]

end Transcript

/-- What is read off the lines one by one, from line `i` on, all of it moved down to its line. -/
def inLines {α : Type} (read : List Char → List α) (down : Nat → α → α) :
    Nat → List (List Char) → List α
  | _, [] => []
  | i, line :: lines => (read line).map (down i) ++ inLines read down (i + 1) lines

theorem inLines_append {α : Type} (read : List Char → List α) (down : Nat → α → α) (i : Nat)
    (before lines : List (List Char)) : inLines read down i (before ++ lines) =
      inLines read down i before ++ inLines read down (i + before.length) lines := by
  induction before generalizing i with
  | nil => rfl
  | cons k before ih =>
    rw [List.cons_append, inLines, inLines, ih, List.length_cons, List.append_assoc,
      Nat.add_right_comm i 1, Nat.add_assoc i]

theorem mem_inLines {α : Type} {read : List Char → List α} {down : Nat → α → α} {i : Nat}
    {lines : List (List Char)} {a : α} : a ∈ inLines read down i lines ↔
      ∃ j line, lines[j]? = some line ∧ ∃ b ∈ read line, down (i + j) b = a := by
  induction lines generalizing i with
  | nil => simp [inLines]
  | cons k lines ih =>
    rw [inLines, List.mem_append, List.mem_map, ih]
    constructor
    · rintro (h | ⟨j, line, hj, h⟩)
      · exact ⟨0, k, rfl, h⟩
      · exact ⟨j + 1, line, hj, by rwa [Nat.add_comm j, ← Nat.add_assoc]⟩
    · rintro ⟨j, line, hj, h⟩
      cases j with
      | zero =>
        obtain rfl := Option.some.inj hj
        exact .inl h
      | succ j => exact .inr ⟨j, line, hj, by rwa [Nat.add_comm j, ← Nat.add_assoc] at h⟩

/-- Lines that are read as others are come to the same in their place. -/
theorem inLines_map {α : Type} {read : List Char → List α} {f : List Char → List Char}
    {lines : List (List Char)} (h : ∀ l ∈ lines, read (f l) = read l) (down : Nat → α → α)
    (i : Nat) : inLines read down i (lines.map f) = inLines read down i lines := by
  induction lines generalizing i with
  | nil => rfl
  | cons k lines ih =>
    have hlater := ih (fun l hl => h l (List.mem_cons_of_mem _ hl)) (i + 1)
    rw [List.map_cons, inLines, inLines, h k List.mem_cons_self, hlater]

theorem flatMap_inLines {α β : Type} {f : α → List β} {down : Nat → α → α}
    (h : ∀ i a, f (down i a) = f a) {read : List Char → List α} {i : Nat}
    {lines : List (List Char)} :
    (inLines read down i lines).flatMap f = lines.flatMap fun l => (read l).flatMap f := by
  induction lines generalizing i with
  | nil => rfl
  | cons k lines ih =>
    rw [inLines, List.flatMap_append, List.flatMap_map, ih, List.flatMap_cons]
    simp only [h]

namespace Lexer

/-- What comes of a drain from a cursor on. -/
def transcript (x : Lexer) (c : Cursor) : Transcript :=
  let reply := (Scanner.mk x c none).drain
  ⟨reply.result.1, reply.result.2, reply.remarks⟩

variable {x : Lexer} {c : Cursor}

theorem transcript_of_token {t : Token} (h : (x.read c).result = .token t) :
    x.transcript c = .afterRead t (x.read c).remarks (x.transcript (x.read c).state) := by
  simp only [transcript, Scanner.drain_of_token h, Transcript.afterRead]

theorem transcript_of_failure {f : Failure} (h : (x.read c).result = .failure f) :
    x.transcript c = ⟨[], some f, (x.read c).remarks⟩ := by
  simp only [transcript, Scanner.drain_of_failure h]

theorem transcript_of_finish (h : (x.read c).result = .finish) :
    x.transcript c = ⟨[], none, (x.read c).remarks⟩ := by
  simp only [transcript, Scanner.drain_of_finish h]

/-- Two reads that differ in their first remarks only have transcripts that do. -/
theorem transcript_of_read {d : Cursor} (remarks : List Remark)
    (h : x.read c = { x.read d with remarks := remarks ++ (x.read d).remarks }) :
    x.transcript c = .followedBy ⟨[], none, remarks⟩ (x.transcript d) := by
  have hc := congrArg Reply.result h
  cases hr : (x.read d).result with
  | token t => simp [transcript_of_token hr, transcript_of_token (hc.trans hr), h,
      Transcript.afterRead, Transcript.followedBy]
  | failure f => simp [transcript_of_failure hr, transcript_of_failure (hc.trans hr), h,
      Transcript.followedBy]
  | finish => simp [transcript_of_finish hr, transcript_of_finish (hc.trans hr), h,
      Transcript.followedBy]

/-- The transcript of a text begins with that of its line, and goes on after the line. -/
theorem transcript_line {i : Nat} {rest : List Char} {line whole : Cursor} {s : Settings}
    (h : Continues i rest line whole) (he : AtLineEnd rest) :
    s.lexer.transcript whole = ((s.lexer.transcript line).down i).followedBy
      (s.lexer.transcript (whole.pass line.ahead.length)) := by
  induction hn : line.ahead.length using Nat.strongRecOn generalizing line whole with
  | ind n ih =>
    rcases h.read (s := s) he with ⟨hr, hw⟩ | ⟨hr, hres, hrem, k, hk, hsl, hsw⟩
    · rw [transcript_of_finish hr, transcript_of_read _ hw, hn]
      rfl
    · cases hl : (s.lexer.read line).result with
      | token t =>
        have hlt := length_ahead_read_lt hl
        rw [hsl] at hlt
        have hlen : k + (line.pass k).ahead.length = n := by
          rw [Cursor.ahead_pass, List.length_drop]
          omega
        rw [hl] at hres
        rw [transcript_of_token hres, transcript_of_token hl, hsl, hsw, hrem,
          ih _ (hn ▸ hlt) (h.pass hk) rfl, Transcript.down_afterRead,
          Transcript.afterRead_followedBy, ← Cursor.pass_add, hlen]
      | failure f =>
        rw [hl] at hres
        rw [transcript_of_failure hres, transcript_of_failure hl, hrem]
        rfl
      | finish => exact absurd hl hr

theorem transcript_of_ahead_nil (h : c.ahead = []) : x.transcript c = {} := by
  have hr : x.read c = ⟨.finish, c, []⟩ := read_of_finish (by rw [h]; rfl)
  rw [transcript_of_finish (by rw [hr]), hr]

theorem transcript_newline {rest : List Char} (h : c.ahead = '\n' :: rest) :
    x.transcript c = x.transcript (c.pass 1) := by
  have hr : x.read c = x.read (c.pass 1) := read_blank (by decide) h
  rw [transcript_of_read [] hr]
  rfl

/-! ### Line after line -/

/-- The lines' transcripts one after another, from line `i` on. -/
def byLines (x : Lexer) (file : String) : Nat → List (List Char) → Transcript
  | _, [] => {}
  | i, line :: lines =>
    ((x.transcript (.start file line)).down i).followedBy (x.byLines file (i + 1) lines)

/-- The transcript from the start of a line on is that of the lines. -/
theorem transcript_eq_byLines {s : Settings} {i : Nat} {c : Cursor} (h : c.StartsLine i) :
    s.lexer.transcript c = s.lexer.byLines c.file i (Text.lines c.ahead) := by
  induction hn : c.ahead.length using Nat.strongRecOn generalizing i c with
  | ind n ih =>
    obtain ⟨line, rest, ha, hrun, he⟩ := exists_run (· ≠ '\n') c.ahead
    have hline : '\n' ∉ line := fun hm => by simpa using hrun _ hm
    have htranscript := transcript_line (s := s) (h.continues ha hline) he
    cases rest with
    | nil =>
      have hend : (c.pass line.length).ahead = [] := Cursor.ahead_pass_length ha
      rw [htranscript, ha, List.append_nil, Text.lines, Text.split_of_not_mem hline]
      simp only [byLines, Cursor.ahead_start, transcript_of_ahead_nil hend]
    | cons a rest =>
      obtain rfl : a = '\n' := by simpa using he a rfl
      have hnewline : (c.pass line.length).ahead = '\n' :: rest := Cursor.ahead_pass_length ha
      have hrest : ((c.pass line.length).pass 1).ahead = rest :=
        Cursor.ahead_pass_length (t := ['\n']) hnewline
      have hlt : ((c.pass line.length).pass 1).ahead.length < n := by
        rw [hrest, ← hn, ha, List.length_append, List.length_cons]
        omega
      have hlater := ih _ hlt (h.next ha hline) rfl
      rw [hrest, Cursor.file_pass, Cursor.file_pass] at hlater
      rw [htranscript, ha, Text.lines, Text.split_append_separator hline]
      simp only [byLines, Cursor.ahead_start, transcript_newline hnewline, hlater, Text.lines]

/-- As long as no line fails, the lines come to their tokens and remarks. -/
theorem byLines_append {file : String} {before : List (List Char)}
    (h : ∀ k ∈ before, (x.transcript (.start file k)).failure? = none) (i : Nat)
    (lines : List (List Char)) :
    x.byLines file i (before ++ lines) =
      .followedBy ⟨inLines (fun k => (x.transcript (.start file k)).tokens) Token.down i before, none,
          inLines (fun k => (x.transcript (.start file k)).remarks) Remark.down i before⟩
        (x.byLines file (i + before.length) lines) := by
  induction before generalizing i with
  | nil => rfl
  | cons k before ih =>
    have hk : (x.transcript (.start file k)).failure? = none := h k List.mem_cons_self
    have hlater := ih (fun l hl => h l (List.mem_cons_of_mem _ hl)) (i + 1)
    rw [List.cons_append, byLines, hlater, List.length_cons, Nat.add_right_comm i 1, Nat.add_assoc i]
    simp [Transcript.followedBy, Transcript.down, hk, inLines]

theorem byLines_of_ok {file : String} {lines : List (List Char)}
    (h : ∀ k ∈ lines, (x.transcript (.start file k)).failure? = none) (i : Nat) :
    x.byLines file i lines =
      ⟨inLines (fun k => (x.transcript (.start file k)).tokens) Token.down i lines, none,
        inLines (fun k => (x.transcript (.start file k)).remarks) Remark.down i lines⟩ := by
  have happend := byLines_append h i []
  rw [List.append_nil] at happend
  rw [happend]
  simp [Transcript.followedBy, byLines]

/-- Nothing comes of the lines after one that fails. -/
theorem byLines_of_failure {file : String} {before : List (List Char)}
    (h : ∀ k ∈ before, (x.transcript (.start file k)).failure? = none) {l : List Char} {f : Failure}
    (hl : (x.transcript (.start file l)).failure? = some f) (i : Nat) (after : List (List Char)) :
    x.byLines file i (before ++ l :: after) =
      ⟨inLines (fun k => (x.transcript (.start file k)).tokens) Token.down i (before ++ [l]),
        some (f.down (i + before.length)),
        inLines (fun k => (x.transcript (.start file k)).remarks) Remark.down i (before ++ [l])⟩ := by
  rw [byLines_append h, byLines]
  simp [Transcript.followedBy, Transcript.down, hl, inLines_append, inLines]

theorem failure?_byLines_eq_none_iff {file : String} {i : Nat} {lines : List (List Char)} :
    (x.byLines file i lines).failure? = none ↔
      ∀ k ∈ lines, (x.transcript (.start file k)).failure? = none := by
  induction lines generalizing i with
  | nil => simp [byLines]
  | cons k lines ih =>
    rw [byLines, List.forall_mem_cons, ← ih (i := i + 1)]
    cases hk : (x.transcript (.start file k)).failure? <;>
      simp [Transcript.followedBy, Transcript.down, hk]

end Lexer

/-- The tokens that a text delivers, up to its first failure. -/
def tokensOf (s : Settings) (file? : Option String) (source : List Char) : List Token :=
  (Scanner.start s.lexer file? source).drain.result.1

theorem tokensOf_of_ok {s : Settings} {file? : Option String} {source : List Char}
    {ts : List Token} (h : (tokenize s file? source).1 = .ok ts) : tokensOf s file? source = ts :=
  congrArg Prod.fst (tokenize_ok_iff.1 h)

/-- A text tokenizes just when its lines do, to their tokens moved down. -/
theorem tokenize_ok_iff_lines {s : Settings} {file? : Option String} {source : List Char}
    {ts : List Token} : (tokenize s file? source).1 = .ok ts ↔
      (∀ k ∈ Text.lines source, (tokenize s file? k).1 = .ok (tokensOf s file? k)) ∧
        inLines (tokensOf s file?) Token.down 0 (Text.lines source) = ts := by
  let file := s.fileFor file?
  have hwhole : s.lexer.transcript (.start file source) =
      s.lexer.byLines file 0 (Text.lines source) := Lexer.transcript_eq_byLines ⟨rfl, rfl⟩
  have hok : ∀ l us, (tokenize s file? l).1 = .ok us ↔
      (s.lexer.transcript (.start file l)).tokens = us ∧
        (s.lexer.transcript (.start file l)).failure? = none :=
    fun l us => tokenize_ok_iff.trans Prod.ext_iff
  rw [hok, hwhole]
  constructor
  · rintro ⟨ht, hf⟩
    have hlines := Lexer.failure?_byLines_eq_none_iff.1 hf
    rw [Lexer.byLines_of_ok hlines] at ht
    exact ⟨fun k hk => (hok k _).2 ⟨rfl, hlines k hk⟩, ht⟩
  · rintro ⟨hlines, rfl⟩
    rw [Lexer.byLines_of_ok fun k hk => ((hok k _).1 (hlines k hk)).2]
    exact ⟨rfl, rfl⟩

/-- A text tokenizes to what its lines tokenize to, each line's tokens and remarks moved down
to it. If a line fails, the first that does gives the text its failure, and what that line
delivers before it fails comes last. -/
theorem tokenize_line_by_line (s : Settings) (file? : Option String) (source : List Char) :
    let tokens := fun l => (Scanner.start s.lexer file? l).drain.result.1
    let remarks := fun l => (tokenize s file? l).2
    ((∀ k ∈ Text.lines source, (tokenize s file? k).1 = .ok (tokens k)) →
      tokenize s file? source = (.ok (inLines tokens Token.down 0 (Text.lines source)),
        inLines remarks Remark.down 0 (Text.lines source))) ∧
    ∀ before l after f, Text.lines source = before ++ l :: after →
      (∀ k ∈ before, (tokenize s file? k).1 = .ok (tokens k)) →
      (tokenize s file? l).1 = .error f →
      tokenize s file? source = (.error (f.down before.length),
        inLines remarks Remark.down 0 (before ++ [l])) ∧
      tokens source = inLines tokens Token.down 0 (before ++ [l]) := by
  intro tokens remarks
  let file := s.fileFor file?
  let transcript := fun l => s.lexer.transcript (.start file l)
  have hwhole : transcript source = s.lexer.byLines file 0 (Text.lines source) :=
    Lexer.transcript_eq_byLines ⟨rfl, rfl⟩
  have hremarks : remarks = fun l => (transcript l).remarks := by
    funext l
    exact tokenize_snd
  have hok : ∀ k ts, (tokenize s file? k).1 = .ok ts → (transcript k).failure? = none := by
    intro k ts hk
    exact congrArg Prod.snd (tokenize_ok_iff.1 hk)
  constructor
  · intro hlines
    rw [Lexer.byLines_of_ok fun k hk => hok k _ (hlines k hk)] at hwhole
    refine Prod.ext (tokenize_ok_iff.2 (Prod.ext ?_ ?_)) ?_
    · exact congrArg Transcript.tokens hwhole
    · exact congrArg Transcript.failure? hwhole
    · rw [hremarks]
      exact tokenize_snd.trans (congrArg Transcript.remarks hwhole)
  · intro before l after f hlines hbefore hl
    rw [hlines, Lexer.byLines_of_failure (fun k hk => hok k _ (hbefore k hk))
      (tokenize_error_iff.1 hl), Nat.zero_add] at hwhole
    refine ⟨Prod.ext (tokenize_error_iff.2 ?_) ?_, ?_⟩
    · exact congrArg Transcript.failure? hwhole
    · rw [hremarks]
      exact tokenize_snd.trans (congrArg Transcript.remarks hwhole)
    · exact congrArg Transcript.tokens hwhole

/-- A fault in the second line, found there as in that line alone. -/
theorem tokenize_line_by_line_fault :
    (tokenize .standard none ['a', '\n', '!']).1 =
      .error ⟨.unexpectedCharacter '!', ⟨"<input>", 2, 0⟩, ['!']⟩ := by
  have hfirst : (tokenize .standard none ['a']).1 =
      .ok (Scanner.start Settings.standard.lexer none ['a']).drain.result.1 :=
    tokenize_ok_iff.2 (by decide +kernel)
  have hsecond : (tokenize .standard none ['!']).1 =
      .error ⟨.unexpectedCharacter '!', ⟨"<input>", 1, 0⟩, ['!']⟩ :=
    tokenize_error_iff.2 (by decide +kernel)
  have h := (tokenize_line_by_line .standard none ['a', '\n', '!']).2 [['a']] ['!'] [] _ rfl
    (by simpa using hfirst) hsecond
  exact congrArg Prod.fst h.1

end BeatNotation
