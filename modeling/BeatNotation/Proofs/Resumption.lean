import BeatNotation.Proofs.Sequence

/-! Reading on from where a scanner stands. A lexer remembers nothing, so the reads that are
still to come are those of a fresh scanner on the rest of the text, with every place counted on
from the cursor. That is so after a failure as well: where the fault has spent nothing, it is met
again by every later read. -/

namespace BeatNotation

/-! ### Places in the rest of a text -/

/-- The place `q` of a text that begins at the place `p`: only its first line is indented. -/
def Position.startingAt (p q : Position) : Position :=
  ⟨p.line + (q.line - 1), if q.line = 1 then p.column + q.column else q.column⟩

def Location.startingAt (p : Position) (l : Location) : Location :=
  ⟨l.file, p.line + (l.line - 1), if l.line = 1 then p.column + l.column else l.column⟩

def Token.startingAt (p : Position) (t : Token) : Token :=
  { t with location := t.location.startingAt p }

/-- A failure shows the whole line of the source that it is in. -/
def Failure.startingAt (p : Position) (source : List Char) (f : Failure) : Failure :=
  ⟨f.fault, f.location.startingAt p, Text.lineNumbered source (f.location.startingAt p).line⟩

def Remark.startingAt (p : Position) : Remark → Remark
  | skippedComment q t => skippedComment (p.startingAt q) t
  | r => r

def Outcome.startingAt (p : Position) (source : List Char) : Outcome → Outcome
  | token t => token (t.startingAt p)
  | failure f => failure (f.startingAt p source)
  | finish => finish

namespace Position

variable {p q : Position}

theorem startingAt_start (p : Position) : p.startingAt {} = p := by
  simp [startingAt]

theorem le_line_advance (q : Position) (t : List Char) : q.line ≤ (q.advance t).line := by
  induction t generalizing q with
  | nil => exact Nat.le_refl _
  | cons c t ih =>
    refine Nat.le_trans ?_ (ih (q.after c))
    rw [after]
    split
    · exact Nat.le_succ _
    · exact Nat.le_refl _

theorem startingAt_after (hq : 1 ≤ q.line) (c : Char) :
    p.startingAt (q.after c) = (p.startingAt q).after c := by
  by_cases hc : c = '\n'
  · have hne : q.line ≠ 0 := Nat.pos_iff_ne_zero.1 hq
    simp only [startingAt, after, hc, ↓reduceIte, mk.injEq, Nat.add_eq_right, hne, and_true]
    omega
  · simp only [startingAt, after, hc, ↓reduceIte, mk.injEq, true_and]
    split <;> omega

theorem startingAt_advance (hq : 1 ≤ q.line) (t : List Char) :
    p.startingAt (q.advance t) = (p.startingAt q).advance t := by
  induction t generalizing q with
  | nil => rfl
  | cons c t ih =>
    have hafter : 1 ≤ (q.after c).line := Nat.le_trans hq (le_line_advance q [c])
    rw [advance_cons, ih hafter, startingAt_after hq, advance_cons]

theorem within_startingAt (hq : 1 ≤ q.line) (file : String) :
    (p.startingAt q).within file = (q.within file).startingAt p := by
  have hone : (q.line : Int) = 1 ↔ q.line = 1 := by omega
  simp only [within, startingAt, Location.startingAt, Location.mk.injEq, hone]
  refine ⟨trivial, by omega, ?_⟩
  split <;> simp

end Position

/-! ### The rest of a text alone -/

/-- The cursor `whole` is as far past `start` as `fresh` is past the beginning of the rest of
the text alone. -/
structure Resumes (start fresh whole : Cursor) : Prop where
  file : whole.file = fresh.file
  ahead : whole.ahead = fresh.ahead
  offset : whole.offset = start.offset + fresh.offset
  position : whole.position = start.position.startingAt fresh.position
  line : 1 ≤ fresh.position.line
  placed : whole.Placed
  source : whole.source = start.source

namespace Resumes

variable {x : Lexer} {start fresh whole : Cursor}

theorem beginning {c : Cursor} (h : c.Placed) : Resumes c (.start c.file c.ahead) c where
  file := rfl
  ahead := rfl
  offset := rfl
  position := (Position.startingAt_start _).symm
  line := Nat.le_refl _
  placed := h
  source := rfl

theorem pass (h : Resumes start fresh whole) (n : Nat) :
    Resumes start (fresh.pass n) (whole.pass n) where
  file := by rw [Cursor.file_pass, Cursor.file_pass, h.file]
  ahead := by rw [Cursor.ahead_pass, Cursor.ahead_pass, h.ahead]
  offset := by rw [Cursor.offset_pass, Cursor.offset_pass, h.ahead, h.offset, Nat.add_assoc]
  position := by
    rw [Cursor.position_pass, Cursor.position_pass, h.ahead, h.position,
      Position.startingAt_advance h.line]
  line := by
    rw [Cursor.position_pass]
    exact Nat.le_trans h.line (Position.le_line_advance _ _)
  placed := h.placed.pass n
  source := by rw [Cursor.source_pass, h.source]

theorem location (h : Resumes start fresh whole) :
    whole.location = fresh.location.startingAt start.position := by
  rw [Cursor.location, Cursor.location, h.position, h.file, Position.within_startingAt h.line]

theorem fail (h : Resumes start fresh whole) (f : Fault) :
    whole.fail f = (fresh.fail f).startingAt start.position start.source := by
  have hline : (fresh.location.startingAt start.position).line = whole.position.line := by
    rw [← h.location]
    rfl
  rw [Cursor.fail, Cursor.fail, Failure.startingAt, hline, ← h.source, h.placed.lineNumbered,
    h.location]

/-- What is read of the rest alone is read of it in the text, at its places there. -/
theorem read (h : Resumes start fresh whole) :
    Reply.Alike (Resumes start)
      ((x.read fresh).map (·.startingAt start.position start.source) (·.startingAt start.position))
      (x.read whole) := by
  induction fresh using Lexer.readInduction x generalizing whole with
  | blank fresh b hp ih =>
    have hw : x.piece whole.ahead = .blank b := by rw [h.ahead, hp]
    rw [Lexer.read_of_blank hp, Lexer.read_of_blank hw]
    exact ih (h.pass _)
  | comment fresh b hp ih =>
    have hw : x.piece whole.ahead = .comment b := by rw [h.ahead, hp]
    rw [Lexer.read_of_comment hp, Lexer.read_of_comment hw, h.position]
    obtain ⟨hresult, hremarks, hstate⟩ := ih (h.pass b.length)
    exact ⟨hresult, congrArg (_ :: ·) hremarks, hstate⟩
  | lexeme fresh l hp =>
    have hw : x.piece whole.ahead = .lexeme l := by rw [h.ahead, hp]
    rw [Lexer.read_of_lexeme hp, Lexer.read_of_lexeme hw, h.location]
    exact ⟨rfl, rfl, h.pass _⟩
  | fault fresh f spent hp =>
    have hw : x.piece whole.ahead = .fault f spent := by rw [h.ahead, hp]
    rw [Lexer.read_of_fault hp, Lexer.read_of_fault hw, (h.pass _).fail]
    exact ⟨rfl, rfl, h.pass _⟩
  | finish fresh hp =>
    have hw : x.piece whole.ahead = .finish := by rw [h.ahead, hp]
    rw [Lexer.read_of_finish hp, Lexer.read_of_finish hw]
    exact ⟨rfl, rfl, h⟩

end Resumes

theorem Outcome.eq_of_failure? {o : Outcome} {f : Failure} (h : o.failure? = some f) :
    o = .failure f := by
  cases o with
  | failure g => rw [Option.some.inj h]
  | _ => cases h

namespace Scanner

/-- The further reads of the scanner are those of a fresh one on the rest of the text, every
place counted on from the cursor. -/
def ReadsOn (s : Settings) (file? : Option String) (source : List Char) (scanner : Scanner) :
    Prop :=
  let c := scanner.cursor
  let rest := Scanner.start s.lexer file? (source.drop c.offset)
  ∀ n,
    (scanner.nexts n).result = (rest.nexts n).result.map (·.startingAt c.position source) ∧
    (scanner.nexts n).remarks = (rest.nexts n).remarks.map (·.startingAt c.position) ∧
    (scanner.nexts n).state.cursor.offset = c.offset + (rest.nexts n).state.cursor.offset ∧
    (scanner.nexts n).state.cursor.position =
      c.position.startingAt (rest.nexts n).state.cursor.position

variable {fresh sc : Scanner} {n : Nat} {ts : List Token} {fs : List Failure} {rs : List Remark}

/-- A scanner that follows another has the same lexer and has passed over some of its text. -/
theorem Follows.exists_pass (h : Follows fresh sc n ts fs rs) (hf : fresh.held = none) :
    sc.lexer = fresh.lexer ∧ ∃ k, sc.cursor = fresh.cursor.pass k := by
  obtain ⟨x, c, held⟩ := fresh
  obtain rfl : held = none := hf
  obtain ⟨k, hk⟩ := x.exists_pass_reads c n
  refine ⟨h.lexer, k, ?_⟩
  rw [h.cursor, nexts_eq_reads]
  exact hk

/-- With nothing in hand, a scanner that follows a fresh one reads on. -/
theorem Follows.readsOn {s : Settings} {file? : Option String} {source : List Char}
    (h : Follows (.start s.lexer file? source) sc n ts fs rs) (hh : sc.held = none) :
    sc.ReadsOn s file? source := by
  obtain ⟨hx, k, hk⟩ := h.exists_pass rfl
  obtain ⟨x, c, held⟩ := sc
  obtain rfl : held = none := hh
  obtain rfl : x = s.lexer := hx
  have hc : c = (Cursor.start (s.fileFor file?) source).pass k := hk
  have hplaced : c.Placed := hc ▸ (Cursor.placed_start _ _).pass k
  have hsource : c.source = source := by
    rw [hc, Cursor.source_pass]
    rfl
  have hfile : c.file = s.fileFor file? := by
    rw [hc, Cursor.file_pass]
    rfl
  have hrest : Scanner.start s.lexer file? (source.drop c.offset) =
      .mk s.lexer (.start c.file c.ahead) none := by
    rw [hfile, Cursor.ahead, hsource]
    rfl
  intro m
  have hread := Lexer.reads_alike (x := s.lexer) (y := s.lexer) (fun _ => True)
    (fun _ _ hr _ => hr.read) (Resumes.beginning hplaced) (n := m) fun _ _ => trivial
  simp only [hrest, nexts_eq_reads]
  rw [← hsource]
  exact ⟨hread.result.symm, hread.remarks.symm, hread.state.offset, hread.state.position⟩

/-! ### After a failure -/

/-- A read with this lexer has just failed, and nothing is in hand. -/
def FailedBy (x : Lexer) (f : Failure) (sc : Scanner) : Prop :=
  ∃ c, (x.read c).result = .failure f ∧ sc = .mk x (x.read c).state none

theorem lexer_of_next {o : Outcome} {after : Scanner} {remarks : List Remark}
    (h : sc.next = ⟨o, after, remarks⟩) : after.lexer = sc.lexer := by
  have hst := congrArg Reply.state h
  unfold next at hst
  split at hst
  all_goals
    subst hst
    rfl

variable {f : Failure}

theorem failedBy_next (h : sc.next.result = .failure f) : sc.next.state.FailedBy sc.lexer f := by
  cases hh : sc.held with
  | some t => simp [next, hh] at h
  | none =>
    rw [next_of_held_none hh] at h ⊢
    exact ⟨sc.cursor, h, by rw [hh]⟩

theorem failedBy_of_next {after : Scanner} {remarks : List Remark}
    (h : sc.next = ⟨.failure f, after, remarks⟩) : after.FailedBy sc.lexer f := by
  have hfail : sc.next.state.FailedBy sc.lexer f := failedBy_next (by rw [h])
  rwa [h] at hfail

theorem failedBy_peek (h : sc.peek.result = .failure f) : sc.peek.state.FailedBy sc.lexer f := by
  cases hh : sc.held with
  | some t => simp [peek, hh] at h
  | none =>
    rw [peek_of_held_none hh] at h ⊢
    obtain ⟨c, hc, hst⟩ := failedBy_next h
    refine ⟨c, hc, ?_⟩
    simp only at h
    rw [h, hst]
    rfl

theorem failedBy_drain (h : sc.drain.result.2 = some f) : sc.drain.state.FailedBy sc.lexer f := by
  fun_induction Scanner.drain sc with
  | case1 sc t after remarks hn tokens failure? last others hd ih =>
    rw [hd, lexer_of_next hn] at ih
    exact ih h
  | case2 sc g after remarks hn =>
    obtain rfl := Option.some.inj h
    exact failedBy_of_next hn
  | case3 sc after remarks hn => cases h

theorem failedBy_take {k : Nat} (h : (sc.take k).result.2 = some f) :
    (sc.take k).state.FailedBy sc.lexer f := by
  fun_induction Scanner.take sc k with
  | case1 sc => cases h
  | case2 sc k t after remarks hn tokens failure? last others hd ih =>
    rw [hd, lexer_of_next hn] at ih
    exact ih h
  | case3 sc k g after remarks hn =>
    obtain rfl := Option.some.inj h
    exact failedBy_of_next hn
  | case4 sc k after remarks hn => cases h

/-- The next read fails, and leaves its cursor where it is. -/
structure Stuck (sc : Scanner) (f : Failure) : Prop where
  held : sc.held = none
  read : sc.lexer.read sc.cursor = ⟨.failure f, sc.cursor, []⟩

namespace FailedBy

variable {x : Lexer}

theorem held (h : sc.FailedBy x f) : sc.held = none := by
  obtain ⟨c, -, rfl⟩ := h
  rfl

/-- The failure stands where the read has stopped. -/
theorem eq_fail (h : sc.FailedBy x f) : f = sc.cursor.fail f.fault := by
  obtain ⟨c, hc, rfl⟩ := h
  obtain ⟨d, spent, -, -, hfail⟩ := Lexer.exists_of_read_failure hc
  exact hfail

/-- A fault that has spent nothing is still there for the next read. -/
theorem stuck {s : Settings} (h : sc.FailedBy s.lexer f)
    (hf : f.fault = .missingNumerator ∨ ∃ a, f.fault = .unexpectedCharacter a) : sc.Stuck f := by
  obtain ⟨c, hc, hsc⟩ := h
  obtain ⟨d, spent, hp, hst, hfail⟩ := Lexer.exists_of_read_failure hc
  have hh := Lexer.heads_piece s d.ahead
  rw [hp] at hh
  -- Either fault is found before anything is taken.
  obtain rfl : spent = [] := by
    rcases hf with hf | ⟨a, hf⟩
    · rw [hf] at hh
      exact hh.1
    · rw [hf] at hh
      exact hh.1
  have hd : (s.lexer.read c).state = d := hst
  rw [hd] at hsc hfail
  subst hsc
  refine ⟨rfl, ?_⟩
  show s.lexer.read d = _
  rw [Lexer.read_of_fault hp, List.length_nil, Cursor.pass_zero, ← hfail]

end FailedBy

namespace Stuck

theorem next (h : sc.Stuck f) : sc.next = ⟨.failure f, sc, []⟩ := by
  rw [next_of_held_none h.held, h.read]

theorem peek (h : sc.Stuck f) : sc.peek = ⟨.failure f, sc, []⟩ := by
  rw [peek_of_held_none h.held, h.next]
  simp only [Outcome.token?, ← h.held]

theorem drain (h : sc.Stuck f) : sc.drain = ⟨([], some f), sc, []⟩ := drain_of_next h.next

theorem take_succ (h : sc.Stuck f) (k : Nat) : sc.take (k + 1) = ⟨([], some f), sc, []⟩ := by
  simp only [take, h.next]

end Stuck

end Scanner

namespace Session

variable {s : Session} {f : Failure}

/-- Whether a step asks the scanner for a token. -/
def asks (s : Session) : Step → Bool
  | .file => false
  | .take n => n ≠ 0
  | .pull => s.pulling
  | _ => true

/-- A step that reports a failure leaves nothing in hand. -/
theorem failedBy_perform {step : Step} (h : (s.perform step).result.failure? = some f) :
    (s.perform step).state.scanner.FailedBy s.scanner.lexer f := by
  cases step with
  | next => exact Scanner.failedBy_next (Outcome.eq_of_failure? h)
  | peek => exact Scanner.failedBy_peek (Outcome.eq_of_failure? h)
  | atEnd =>
    apply Scanner.failedBy_peek
    cases hp : s.scanner.peek.result with
    | failure g => simpa [perform, hp, Answer.failure?, Outcome.failure?] using h
    | _ => simp [perform, hp, Answer.failure?] at h
  | file => cases h
  | drain => exact Scanner.failedBy_drain h
  | take k => exact Scanner.failedBy_take h
  | pull =>
    cases hpull : s.pulling with
    | false => simp [perform, hpull, Answer.failure?, Outcome.failure?] at h
    | true =>
      simp only [perform, hpull, ↓reduceIte] at h ⊢
      exact Scanner.failedBy_next (Outcome.eq_of_failure? h)

/-- A stuck scanner stays as it is, and every step that asks it for a token fails alike. -/
theorem perform_stuck (h : s.scanner.Stuck f) (step : Step) :
    (s.perform step).state.scanner = s.scanner ∧ (s.perform step).remarks = [] ∧
      step.delivers (s.perform step).result = [] ∧
      (s.perform step).result.failure? = if s.asks step then some f else none := by
  cases step with
  | next => simp [perform, h.next, asks, Step.delivers, Answer.failure?, Outcome.failure?,
      Outcome.token?]
  | peek => simp [perform, h.peek, asks, Step.delivers, Answer.failure?, Outcome.failure?]
  | atEnd => simp [perform, h.peek, asks, Step.delivers, Answer.failure?, Outcome.failure?]
  | file => exact ⟨rfl, rfl, rfl, rfl⟩
  | drain => simp [perform, h.drain, asks, Step.delivers, Answer.failure?]
  | take k =>
    cases k with
    | zero => exact ⟨rfl, rfl, rfl, rfl⟩
    | succ k => simp [perform, h.take_succ, asks, Step.delivers, Answer.failure?]
  | pull =>
    cases hpull : s.pulling <;>
      simp [perform, hpull, h.next, asks, Step.delivers, Answer.failure?, Outcome.failure?,
        Outcome.token?]

theorem scanner_run_stuck (h : s.scanner.Stuck f) (steps : List Step) :
    (s.after (s.run steps)).scanner = s.scanner := by
  induction steps generalizing s with
  | nil => rfl
  | cons step steps ih =>
    obtain ⟨hst, -⟩ := perform_stuck h step
    rw [run, after, ih (hst ▸ h), hst]

/-- Whatever steps are still taken, the scanner stays as it is, no token is delivered and no
remark is made, and each step that asks for a token reports the failure. -/
def FailsForGood (s : Session) (f : Failure) : Prop :=
  ∀ steps step,
    let later := s.after (s.run steps)
    later.scanner = s.scanner ∧ (later.perform step).state.scanner = s.scanner ∧
      (later.perform step).remarks = [] ∧ step.delivers (later.perform step).result = [] ∧
      (later.perform step).result.failure? = if later.asks step then some f else none

theorem failsForGood_of_stuck (h : s.scanner.Stuck f) : s.FailsForGood f := by
  intro steps step later
  have hlater : later.scanner = s.scanner := scanner_run_stuck h steps
  obtain ⟨hst, hrest⟩ := perform_stuck (s := later) (hlater ▸ h) step
  exact ⟨hlater, hst.trans hlater, hrest⟩

/-- After any steps, a session with no token in hand reads on. A step that fails leaves none in
hand. Its failure stands at the cursor, from where the session reads on; and where the fault has
spent nothing, the session never gets past it. -/
theorem run_reads_on (s : Settings) (file? : Option String) (source : List Char)
    (steps : List Step) :
    let fresh : Session := { scanner := .start s.lexer file? source }
    let reached := fresh.after (fresh.run steps)
    (reached.scanner.held = none → reached.scanner.ReadsOn s file? source) ∧
    ∀ step f, (reached.perform step).result.failure? = some f →
      let failed := (reached.perform step).state
      failed.scanner.held = none ∧ f = failed.scanner.cursor.fail f.fault ∧
      failed.scanner.ReadsOn s file? source ∧
      (f.fault = .missingNumerator ∨ (∃ a, f.fault = .unexpectedCharacter a) →
        failed.FailsForGood f) := by
  intro fresh reached
  obtain ⟨n, hreached⟩ := follows_run (s := fresh) (.start rfl) rfl steps
  refine ⟨hreached.readsOn, ?_⟩
  intro step f hf failed
  obtain ⟨m, hfailed⟩ := follows_perform hreached rfl step
  have hlexer : reached.scanner.lexer = s.lexer := hreached.lexer
  have hfail : failed.scanner.FailedBy s.lexer f := hlexer ▸ failedBy_perform hf
  refine ⟨hfail.held, hfail.eq_fail, hfailed.readsOn hfail.held, fun hspent => ?_⟩
  exact failsForGood_of_stuck (hfail.stuck hspent)

/-- A slash with no denominator is passed over, and then a character that opens nothing is met
for good. -/
theorem run_reads_on_unexpected :
    let fresh : Session := { scanner := .start Settings.standard.lexer none ['4', '/', '\n', '!'] }
    let reached := fresh.after (fresh.run [.next])
    let unexpected : Failure := ⟨.unexpectedCharacter '!', ⟨"<input>", 2, 0⟩, ['!']⟩
    reached.scanner.ReadsOn .standard none ['4', '/', '\n', '!'] ∧
      (reached.perform .peek).state.FailsForGood unexpected := by
  intro fresh reached unexpected
  obtain ⟨hon, hstop⟩ := run_reads_on .standard none ['4', '/', '\n', '!'] [.next]
  refine ⟨hon (by decide +kernel), ?_⟩
  obtain ⟨-, -, -, hgood⟩ := hstop .peek unexpected (by decide +kernel)
  exact hgood (.inr ⟨'!', rfl⟩)

end Session

end BeatNotation
