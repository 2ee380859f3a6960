import BeatNotation.Proofs.Places
import BeatNotation.Proofs.Reading
import BeatNotation.Proofs.Reference

/-! The account of a run. Whatever is asked of a scanner, failures included, the text behind
it is a row of pieces, none left out and none taken twice. The tokens, the failures and the
remarks are those of the pieces, at the places that the text before each piece leads to. -/

namespace BeatNotation

/-- A piece in a row of pieces, with the text of those before it. -/
structure Entry where
  before : List Char
  piece : Piece

/-- The entries of some pieces, the first of them after the text `before`. -/
def entries : List Char → List Piece → List Entry
  | _, [] => []
  | before, p :: ps => ⟨before, p⟩ :: entries (before ++ p.text) ps

theorem entries_append (before : List Char) (ps qs : List Piece) :
    entries before (ps ++ qs) =
      entries before ps ++ entries (before ++ ps.flatMap Piece.text) qs := by
  induction ps generalizing before with
  | nil => simp [entries]
  | cons p ps ih => simp [entries, ih]

namespace Entry

/-- The place where the piece begins. -/
def position (e : Entry) : Position := .reached e.before

/-- The token of a lexeme. -/
def token? (keywords : Vocabulary) (file : String) (e : Entry) : Option Token :=
  match e.piece with
  | .lexeme l => some (l.token keywords (e.position.within file))
  | _ => none

/-- The remark about a comment. -/
def remark? (e : Entry) : Option Remark :=
  match e.piece with
  | .comment t => some (.skippedComment e.position t)
  | _ => none

/-- The failure of a fault, at the place after what the reader has spent. -/
def failure? (file : String) (source : List Char) (e : Entry) : Option Failure :=
  match e.piece with
  | .fault f spent => some
    { fault := f
      location := (Position.reached (e.before ++ spent)).within file
      sourceLine := Cursor.lineAt source (e.before ++ spent).length }
  | _ => none

end Entry

/-- From one cursor to another, the lexer has cut off some pieces. The tokens, failures and
remarks are theirs. -/
structure Accounts (s : Settings) (c d : Cursor) (ps : List Piece) (tokens : List Token)
    (failures : List Failure) (remarks : List Remark) : Prop where
  file : d.file = c.file
  source : d.source = c.source
  placed : d.Placed
  behind : d.behind.reverse = c.behind.reverse ++ ps.flatMap Piece.text
  heads : ∀ e ∈ entries c.behind.reverse ps,
    e.piece.Heads s.toConfiguration (c.source.drop e.before.length)
  tokens : tokens = (entries c.behind.reverse ps).filterMap (·.token? s.keywords c.file)
  failures : failures = (entries c.behind.reverse ps).filterMap (·.failure? c.file c.source)
  remarks : remarks = (entries c.behind.reverse ps).filterMap (·.remark?)

namespace Accounts

variable {s : Settings} {c d e : Cursor} {ps qs : List Piece} {ts us : List Token}
  {fs gs : List Failure} {rs rs' : List Remark}

theorem nil (h : c.Placed) : Accounts s c c [] [] [] [] where
  file := rfl
  source := rfl
  placed := h
  behind := (List.append_nil _).symm
  heads := by simp [entries]
  tokens := rfl
  failures := rfl
  remarks := rfl

theorem trans (h : Accounts s c d ps ts fs rs) (h' : Accounts s d e qs us gs rs') :
    Accounts s c e (ps ++ qs) (ts ++ us) (fs ++ gs) (rs ++ rs') where
  file := h'.file.trans h.file
  source := h'.source.trans h.source
  placed := h'.placed
  behind := by rw [h'.behind, h.behind, List.flatMap_append, List.append_assoc]
  heads := by
    rw [entries_append, ← h.behind]
    intro e he
    rcases List.mem_append.1 he with he | he
    · exact h.heads e he
    · rw [← h.source]
      exact h'.heads e he
  tokens := by
    rw [entries_append, List.filterMap_append, ← h.behind, h.tokens, h'.tokens, h.file]
  failures := by
    rw [entries_append, List.filterMap_append, ← h.behind, h.failures, h'.failures, h.file, h.source]
  remarks := by
    rw [entries_append, List.filterMap_append, ← h.behind, h.remarks, h'.remarks]

/-- The account of a single piece. -/
theorem piece (h : c.Placed) {p : Piece} (hp : s.lexer.piece c.ahead = p) :
    Accounts s c (c.pass p.text.length) [p]
      (Entry.token? s.keywords c.file ⟨c.behind.reverse, p⟩).toList
      (Entry.failure? c.file c.source ⟨c.behind.reverse, p⟩).toList
      (Entry.remark? ⟨c.behind.reverse, p⟩).toList := by
  have hh := Lexer.heads_piece s c.ahead
  rw [hp] at hh
  obtain ⟨rest, ha⟩ := hh.exists_rest
  refine ⟨Cursor.file_pass c _, Cursor.source_pass c _, h.pass _, ?_, ?_, ?_, ?_, ?_⟩
  · rw [Cursor.behind_pass_length ha, List.flatMap_singleton]
  · intro e he
    obtain rfl : e = ⟨c.behind.reverse, p⟩ := List.mem_singleton.1 he
    show p.Heads s.toConfiguration (c.source.drop c.behind.reverse.length)
    rwa [List.length_reverse, h.length_behind]
  · exact (filterMap_singleton _ _).symm
  · exact (filterMap_singleton _ _).symm
  · exact (filterMap_singleton _ _).symm

/-- Every read accounts for what it passes over. -/
theorem read (h : c.Placed) : ∃ ps, Accounts s c (s.lexer.read c).state ps
    (s.lexer.read c).result.token?.toList (s.lexer.read c).result.failure?.toList
    (s.lexer.read c).remarks := by
  induction c using Lexer.readInduction s.lexer with
  | blank c b hp ih =>
    have hfirst := piece h hp
    obtain ⟨ps, hps⟩ := ih hfirst.placed
    rw [Lexer.read_of_blank hp]
    exact ⟨_, hfirst.trans hps⟩
  | comment c b hp ih =>
    have hfirst := piece h hp
    obtain ⟨ps, hps⟩ := ih hfirst.placed
    have hremark : Entry.remark? ⟨c.behind.reverse, .comment b⟩ =
        some (.skippedComment c.position b) := by
      show some (Remark.skippedComment (.reached c.behind.reverse) b) = _
      rw [h.position]
    rw [hremark] at hfirst
    rw [Lexer.read_of_comment hp]
    exact ⟨_, hfirst.trans hps⟩
  | lexeme c l hp =>
    have hfirst := piece h hp
    have hlocation : c.location = (Position.reached c.behind.reverse).within c.file := by
      rw [Cursor.location, h.position]
    rw [Lexer.read_of_lexeme hp, hlocation]
    exact ⟨_, hfirst⟩
  | fault c f spent hp =>
    have hfirst : Accounts s c (c.pass spent.length) [.fault f spent] _ _ _ := piece h hp
    have hfail : Entry.failure? c.file c.source ⟨c.behind.reverse, .fault f spent⟩ =
        some ((c.pass spent.length).fail f) := by
      rw [hfirst.placed.fail, hfirst.behind, hfirst.file, hfirst.source, List.flatMap_singleton]
      rfl
    rw [hfail] at hfirst
    rw [Lexer.read_of_fault hp]
    exact ⟨_, hfirst⟩
  | finish c hp =>
    rw [Lexer.read_of_finish hp]
    exact ⟨[], .nil h⟩

/-- So do the reads of the reference. -/
theorem nexts (fresh : Scanner) (hl : fresh.lexer = s.lexer) (hh : fresh.held = none)
    (hp : fresh.cursor.Placed) (n : Nat) : ∃ ps, Accounts s fresh.cursor (fresh.nexts n).state.cursor ps
      ((fresh.nexts n).result.filterMap (·.token?)) ((fresh.nexts n).result.filterMap (·.failure?))
      (fresh.nexts n).remarks := by
  induction n with
  | zero => exact ⟨[], .nil hp⟩
  | succ n ih =>
    obtain ⟨ps, hps⟩ := ih
    obtain ⟨qs, hqs⟩ := read (s := s) hps.placed
    have hstate := Scanner.state_nexts hh n
    refine ⟨ps ++ qs, ?_⟩
    simp only [Scanner.nexts, Scanner.next_of_held_none hstate.2, hstate.1, hl,
      List.filterMap_append, filterMap_singleton]
    exact hps.trans hqs

end Accounts

/-- After any steps, failing ones included, the text behind is a row of pieces, each of them
what it says of the text. Every comment among them has been remarked on once, every lexeme
is a token delivered or held, every fault has been reported, and each of them is placed by
the text before it. -/
theorem Session.run_accounts (s : Settings) (file? : Option String) (source : List Char)
    (steps : List Step) :
    let session : Session := { scanner := .start s.lexer file? source }
    let replies := session.run steps
    let last := (session.after replies).scanner
    let file := s.fileFor file?
    ∃ ps : List Piece,
      ps.flatMap Piece.text = source.take last.cursor.offset ∧
      last.cursor.position = .reached (source.take last.cursor.offset) ∧
      (∀ e ∈ entries [] ps, e.piece.Heads s.toConfiguration (source.drop e.before.length)) ∧
      replies.flatMap (·.remarks) = (entries [] ps).filterMap (·.remark?) ∧
      delivered steps replies ++ last.held.toList =
        (entries [] ps).filterMap (·.token? s.keywords file) ∧
      replies.filterMap (·.result.failure?) =
        (entries [] ps).filterMap (·.failure? file source) := by
  intro session replies last file
  obtain ⟨n, h⟩ := follows_run (s := session) (.start rfl) rfl steps
  obtain ⟨ps, hps⟩ := Accounts.nexts (s := s) session.scanner rfl rfl
    (Cursor.placed_start file source) n
  have hbehind : last.cursor.behind.reverse = ps.flatMap Piece.text := by
    rw [h.cursor]
    exact hps.behind
  have hoffset : source.take last.cursor.offset = ps.flatMap Piece.text := by
    have hsource : last.cursor.source = source := by
      rw [h.cursor]
      exact hps.source
    rw [← hsource, Cursor.take_source, hbehind]
  have hposition : last.cursor.position = .reached (ps.flatMap Piece.text) := by
    rw [← hbehind, h.cursor]
    exact hps.placed.position
  rw [hoffset]
  refine ⟨ps, rfl, hposition, hps.heads, ?_, ?_, ?_⟩
  · exact h.remarks.trans hps.remarks
  · exact h.tokens.trans hps.tokens
  · exact h.failures.trans hps.failures

end BeatNotation
