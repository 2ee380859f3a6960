import BeatNotation.Failure
import BeatNotation.Lexer

/-! Tokens on demand. A read passes over gaps and takes one lexeme; nothing else of the
text is looked at. A scanner keeps at most one token that was asked for ahead of time.
A read that fails leaves its cursor where the reader stopped and keeps no token. -/

namespace BeatNotation

/-- What a request for a token comes to. -/
inductive Outcome
  | token (t : Token)
  | failure (f : Failure)
  | finish
deriving DecidableEq, Repr

def Outcome.token? : Outcome → Option Token
  | token t => some t
  | _ => none

/-- A result, the state it leaves, and the remarks made on the way. -/
structure Reply (State Result : Type) where
  result : Result
  state : State
  remarks : List Remark := []

/-! ### Reading -/

/-- Read the next token from a cursor: pass over blanks, and let the rule that claims the place
read there. After a comment, go on. -/
def Lexer.read (x : Lexer) (c : Cursor) : Reply Cursor Outcome :=
  let here := (c.readWhile Alphabet.isBlank).2
  match here.peek 0 with
  | none => ⟨.finish, here, []⟩
  | some a =>
    match x.ruleAt? here with
    | none => ⟨.failure (here.fail (.unexpectedCharacter a)), here, []⟩
    | some r =>
      match _h : x.readAt r here with
      | (.fault f _, stop) => ⟨.failure (stop.fail f), stop, []⟩
      | (.lexeme l, stop) => ⟨.token (l.token x.settings.keywords here.location), stop, []⟩
      | (.skipped t, stop) =>
        let reply := x.read stop
        { reply with remarks := .skippedComment here.position t :: reply.remarks }
termination_by c.ahead.length
decreasing_by
  have hless := Lexer.length_ahead_readAt_lt _h (by simp)
  exact Nat.lt_of_lt_of_le hless (c.length_ahead_readWhile_le _)

/-- A read does nothing to its cursor but pass over text. -/
theorem Lexer.exists_pass_read (x : Lexer) (c : Cursor) : ∃ n, (x.read c).state = c.pass n := by
  fun_induction Lexer.read x c with
  | case1 c here => exact c.exists_pass_readWhile _
  | case2 c here => exact c.exists_pass_readWhile _
  | case3 c here a _ r _ f spent stop h =>
    obtain ⟨m, hm⟩ := c.exists_pass_readWhile Alphabet.isBlank
    obtain ⟨n, rfl, -⟩ := exists_pass_readAt h
    exact ⟨m + n, by rw [Cursor.pass_add, ← hm]⟩
  | case4 c here a _ r _ l stop h =>
    obtain ⟨m, hm⟩ := c.exists_pass_readWhile Alphabet.isBlank
    obtain ⟨n, rfl, -⟩ := exists_pass_readAt h
    exact ⟨m + n, by rw [Cursor.pass_add, ← hm]⟩
  | case5 c here a _ r _ t stop h reply ih =>
    obtain ⟨m, hm⟩ := c.exists_pass_readWhile Alphabet.isBlank
    obtain ⟨n, rfl, -⟩ := exists_pass_readAt h
    obtain ⟨k, hk⟩ := ih
    exact ⟨m + n + k, by rw [Cursor.pass_add, Cursor.pass_add, ← hm, ← hk]⟩

theorem Lexer.length_ahead_read_le (x : Lexer) (c : Cursor) :
    (x.read c).state.ahead.length ≤ c.ahead.length := by
  obtain ⟨n, hn⟩ := x.exists_pass_read c
  rw [hn, Cursor.ahead_pass, List.length_drop]
  exact Nat.sub_le _ _

/-- A read that delivers a token leaves less of the text. -/
theorem Lexer.length_ahead_read_lt {x : Lexer} {c : Cursor} {t : Token}
    (h : (x.read c).result = .token t) : (x.read c).state.ahead.length < c.ahead.length := by
  fun_induction Lexer.read x c with
  | case1 c here => cases h
  | case2 c here => cases h
  | case3 c here => cases h
  | case4 c here a _ r _ l stop hread =>
    have hless := length_ahead_readAt_lt hread (by simp)
    exact Nat.lt_of_lt_of_le hless (c.length_ahead_readWhile_le _)
  | case5 c here a _ r _ t stop hread reply ih =>
    have hless := length_ahead_readAt_lt hread (by simp)
    have hblank := c.length_ahead_readWhile_le Alphabet.isBlank
    exact Nat.lt_trans (ih h) (Nat.lt_of_lt_of_le hless hblank)

/-! ### Looking ahead -/

/-- Whether a token has been read ahead. -/
inductive Lookahead
  | empty
  | buffered
deriving DecidableEq, Repr

namespace Lookahead

def all : List Lookahead := [empty, buffered]

def label : Lookahead → String
  | empty => "EMPTY"
  | buffered => "BUFFERED"

end Lookahead

/-- A lexer at work on a text. -/
structure Scanner where
  lexer : Lexer
  cursor : Cursor
  /-- A token already read and not yet delivered. -/
  held : Option Token := none

namespace Scanner

/-- A scanner before a text; without a name of its own, the text takes the settings' name. -/
def start (x : Lexer) (file? : Option String) (source : List Char) : Scanner where
  lexer := x
  cursor := .start (x.settings.fileFor file?) source

def lookahead (s : Scanner) : Lookahead := if s.held.isSome then .buffered else .empty

/-- Deliver the next token. -/
def next (s : Scanner) : Reply Scanner Outcome :=
  match s.held with
  | some t => ⟨.token t, { s with held := none }, []⟩
  | none =>
    let reply := s.lexer.read s.cursor
    ⟨reply.result, { s with cursor := reply.state }, reply.remarks⟩

/-- Show the next token and keep it. -/
def peek (s : Scanner) : Reply Scanner Outcome :=
  match s.held with
  | some t => ⟨.token t, s, []⟩
  | none =>
    let reply := s.lexer.read s.cursor
    ⟨reply.result, { s with cursor := reply.state, held := reply.result.token? }, reply.remarks⟩

/-- The characters ahead, and the token held, that are still to be delivered. -/
def remaining (s : Scanner) : Nat := s.cursor.ahead.length + s.held.toList.length

theorem remaining_next_lt {s : Scanner} {t : Token} (h : s.next.result = .token t) :
    s.next.state.remaining < s.remaining := by
  unfold next at h ⊢
  split at h
  · next hh => simp [remaining, hh]
  · next hh =>
    have := Lexer.length_ahead_read_lt h
    simp_all [remaining]

theorem remaining_next_le (s : Scanner) : s.next.state.remaining ≤ s.remaining := by
  have := s.lexer.length_ahead_read_le s.cursor
  unfold next
  split <;> simp_all [remaining]

theorem remaining_peek_le (s : Scanner) : s.peek.state.remaining ≤ s.remaining := by
  unfold peek
  split
  · exact Nat.le_refl _
  · next hh =>
    have hle := s.lexer.length_ahead_read_le s.cursor
    cases hr : (s.lexer.read s.cursor).result with
    | token t =>
      have := Lexer.length_ahead_read_lt hr
      simp only [remaining, hh, hr, Outcome.token?, Option.toList_some, Option.toList_none,
        List.length_singleton, List.length_nil]
      omega
    | failure f => simpa [remaining, hh, hr, Outcome.token?] using hle
    | finish => simpa [remaining, hh, hr, Outcome.token?] using hle

/-- Deliver every token up to the end of the text or the first failure. -/
def drain (s : Scanner) : Reply Scanner (List Token × Option Failure) :=
  match _h : s.next with
  | ⟨.token t, after, remarks⟩ =>
    let ⟨(tokens, failure?), last, others⟩ := after.drain
    ⟨(t :: tokens, failure?), last, remarks ++ others⟩
  | ⟨.failure f, after, remarks⟩ => ⟨([], some f), after, remarks⟩
  | ⟨.finish, after, remarks⟩ => ⟨([], none), after, remarks⟩
termination_by s.remaining
decreasing_by
  have := remaining_next_lt (s := s) (t := t) (by rw [_h])
  rwa [_h] at this

/-- Deliver at most so many tokens. -/
def take (s : Scanner) : Nat → Reply Scanner (List Token × Option Failure)
  | 0 => ⟨([], none), s, []⟩
  | n + 1 =>
    match s.next with
    | ⟨.token t, after, remarks⟩ =>
      let ⟨(tokens, failure?), last, others⟩ := after.take n
      ⟨(t :: tokens, failure?), last, remarks ++ others⟩
    | ⟨.failure f, after, remarks⟩ => ⟨([], some f), after, remarks⟩
    | ⟨.finish, after, remarks⟩ => ⟨([], none), after, remarks⟩

end Scanner

/-! ### Whole texts -/

/-- The version of the notation that is read. -/
def version : String := "1.0.0"

/-- All tokens of a text or the first failure, and the remarks made up to there. -/
def tokenize (s : Settings) (file? : Option String) (source : List Char) :
    Except Failure (List Token) × List Remark :=
  match (Scanner.start { settings := s } file? source).drain with
  | ⟨(tokens, none), _, remarks⟩ => (.ok tokens, remarks)
  | ⟨(_, some f), _, remarks⟩ => (.error f, remarks)

end BeatNotation
