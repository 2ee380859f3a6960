import BeatNotation.Proofs.Resumption
import BeatNotation.Proofs.RuleOrder

/-! Readers out of service. A reader that takes nothing would be asked over and over at the same
place; a lexer reports it instead. As long as no scan arrives at a place of such a rule, nothing
can be told from a lexer with all its readers. The first scan that does fails there, whatever the
reader would have found, and so does every later one. -/

namespace BeatNotation

open Alphabet

/-- Only the comment reader passes over text. -/
theorem Rule.eq_comment_of_read {r : Rule} {c : Char} {rest t : List Char}
    (h : r.read c rest = .skipped t) : r = .comment := by
  have hconvert : ∀ l, convert l ≠ .skipped t := by
    intro l
    unfold convert
    split <;> simp
  cases r with
  | comment => rfl
  | number =>
    simp only [read, readNumber] at h
    split at h
    · cases h
    · split at h
      · cases h
      · exact absurd h (hconvert _)
    · exact absurd h (hconvert _)
  | _ => cases h

namespace Piece

variable {r : Rule} {reading : Reading} {b : List Char}

theorem ofReading_ne_blank : ofReading r reading ≠ blank b := by
  intro h
  cases reading with
  | fault f spent => cases h
  | _ =>
    simp only [ofReading] at h
    split at h <;> cases h

theorem skipped_of_ofReading (h : ofReading r reading = comment b) :
    reading = .skipped b ∧ b ≠ [] := by
  cases reading with
  | lexeme l =>
    simp only [ofReading] at h
    split at h <;> cases h
  | skipped t =>
    simp only [ofReading, List.isEmpty_iff] at h
    split at h
    · cases h
    · next ht =>
      obtain rfl := Piece.comment.inj h
      exact ⟨rfl, ht⟩
  | fault f spent => cases h

end Piece

/-! ### Reads -/

namespace Lexer

/-- The lexer with these readers out of service as well. -/
def without (x : Lexer) (idle : Rule → Bool) : Lexer :=
  { x with idle := fun r => x.idle r || idle r }

/-- From the cursor, a scan over blanks, and over comments while their reader is in service,
arrives at a place of a rule whose reader is not. -/
inductive Arrives (x : Lexer) (idle : Rule → Bool) (r : Rule) (d : Cursor) :
    Cursor → List Remark → Prop
  | here {a : Char} {rest : List Char} : d.ahead = a :: rest → ¬ isBlank a →
      x.rule? a rest.head? = some r → idle r → Arrives x idle r d d []
  | blank {c : Cursor} {b : List Char} {rs : List Remark} : x.piece c.ahead = .blank b →
      Arrives x idle r d (c.pass b.length) rs → Arrives x idle r d c rs
  | comment {c : Cursor} {b : List Char} {rs : List Remark} : ¬ idle .comment →
      x.piece c.ahead = .comment b → Arrives x idle r d (c.pass b.length) rs →
      Arrives x idle r d c (.skippedComment c.position b :: rs)

variable {x : Lexer} {idle : Rule → Bool} {r : Rule} {c d : Cursor} {rs : List Remark}

theorem reading_without (r : Rule) (a : Char) (rest : List Char) :
    (x.without idle).reading r a rest = if idle r then .skipped [] else x.reading r a rest := by
  show (if x.idle r || idle r then Reading.skipped [] else r.read a rest) = _
  unfold reading
  cases x.idle r <;> cases idle r <;> rfl

theorem piece_without_of_idle {a : Char} {rest : List Char} (ha : ¬ isBlank a)
    (hr : x.rule? a rest.head? = some r) (hi : idle r) :
    (x.without idle).piece (a :: rest) = .fault (.stalled r) [] := by
  have hr' : (x.without idle).rule? a rest.head? = some r := hr
  rw [piece, if_neg ha, hr']
  simp only [reading_without, hi, ↓reduceIte]
  rfl

/-- Where no rule without its reader claims the place, the same piece is cut. -/
theorem piece_without {t : List Char} (h : ∀ a rest r, t = a :: rest → ¬ isBlank a →
    x.rule? a rest.head? = some r → ¬ idle r) : (x.without idle).piece t = x.piece t := by
  cases t with
  | nil => rfl
  | cons a rest =>
    have hrule : (x.without idle).rule? a rest.head? = x.rule? a rest.head? := rfl
    by_cases ha : isBlank a
    · rw [piece, piece, if_pos ha, if_pos ha]
    · rw [piece, piece, if_neg ha, if_neg ha, hrule]
      cases hr : x.rule? a rest.head? with
      | none => rfl
      | some r => simp only [reading_without, if_neg (h a rest r rfl ha hr)]

theorem piece_without_of_blank {t b : List Char} (h : x.piece t = .blank b) :
    (x.without idle).piece t = .blank b := by
  rw [← h]
  apply piece_without
  rintro a rest r rfl ha hr
  rw [piece, if_neg ha, hr] at h
  exact absurd h Piece.ofReading_ne_blank

/-- A comment is cut off by the rule for comments. -/
theorem rule?_of_comment {a : Char} {rest b : List Char} (h : x.piece (a :: rest) = .comment b) :
    ¬ isBlank a ∧ x.rule? a rest.head? = some .comment := by
  rw [piece] at h
  split at h
  · cases h
  · next ha =>
    refine ⟨ha, ?_⟩
    split at h
    · cases h
    · next r hr =>
      obtain ⟨hreading, hb⟩ := Piece.skipped_of_ofReading h
      unfold reading at hreading
      split at hreading
      · exact absurd (Reading.skipped.inj hreading).symm hb
      · rw [hr, Rule.eq_comment_of_read hreading]

theorem piece_without_of_comment {t b : List Char} (hi : ¬ idle .comment)
    (h : x.piece t = .comment b) : (x.without idle).piece t = .comment b := by
  rw [← h]
  apply piece_without
  rintro a rest r rfl _ hr
  obtain ⟨-, hcomment⟩ := rule?_of_comment h
  obtain rfl : r = .comment := Option.some.inj (hr.symm.trans hcomment)
  exact hi

/-- A scan that arrives at such a place makes a read fail there. -/
theorem read_of_arrives (h : x.Arrives idle r d c rs) :
    (x.without idle).read c = ⟨.failure (d.fail (.stalled r)), d, rs⟩ := by
  induction h with
  | here hd ha hr hi =>
    rw [read_of_fault (hd ▸ piece_without_of_idle ha hr hi)]
    rfl
  | blank hp _ ih => rw [read_of_blank (piece_without_of_blank hp), ih]
  | comment hi hp _ ih => rw [read_of_comment (piece_without_of_comment hi hp), ih]

theorem Arrives.again (h : x.Arrives idle r d c rs) : x.Arrives idle r d d [] := by
  induction h with
  | here hd ha hr hi => exact .here hd ha hr hi
  | blank _ _ ih => exact ih
  | comment _ _ _ ih => exact ih

/-- A scan that arrives at no such place makes no difference. -/
theorem read_of_not_arrives (h : ∀ r d rs, ¬ x.Arrives idle r d c rs) :
    (x.without idle).read c = x.read c := by
  have hpiece (c : Cursor) (hc : ∀ r d rs, ¬ x.Arrives idle r d c rs) :
      (x.without idle).piece c.ahead = x.piece c.ahead :=
    piece_without fun a rest r ht ha hr hi => hc r c [] (.here ht ha hr hi)
  induction c using Lexer.readInduction x with
  | blank c b hp ih =>
    have hlater : ∀ r d rs, ¬ x.Arrives idle r d (c.pass b.length) rs :=
      fun r d rs ha => h r d rs (.blank hp ha)
    rw [read_of_blank hp, read_of_blank ((hpiece c h).trans hp), ih hlater]
  | comment c b hp ih =>
    have hcomment : ¬ idle .comment := by
      intro hi
      obtain ⟨a, rest, ht⟩ := List.exists_cons_of_ne_nil
        (ne_nil_of_piece_ne_finish (x := x) (t := c.ahead) (by simp [hp]))
      obtain ⟨ha, hr⟩ := rule?_of_comment (ht ▸ hp)
      exact h .comment c [] (.here ht ha hr hi)
    have hlater : ∀ r d rs, ¬ x.Arrives idle r d (c.pass b.length) rs :=
      fun r d rs ha => h r d _ (.comment hcomment hp ha)
    rw [read_of_comment hp, read_of_comment ((hpiece c h).trans hp), ih hlater]
  | lexeme c l hp =>
    rw [read_of_lexeme hp, read_of_lexeme ((hpiece c h).trans hp)]
    rfl
  | fault c f spent hp => rw [read_of_fault hp, read_of_fault ((hpiece c h).trans hp)]
  | finish c hp => rw [read_of_finish hp, read_of_finish ((hpiece c h).trans hp)]

end Lexer

/-! ### Scanners -/

namespace Scanner

/-- The scanner with these readers out of service as well. -/
def without (o : Scanner) (idle : Rule → Bool) : Scanner :=
  { o with lexer := o.lexer.without idle }

/-- The next request makes the scanner read, and the scan arrives at a place of a rule whose reader
is out of service. -/
def Lands (idle : Rule → Bool) (r : Rule) (d : Cursor) (o : Scanner) (rs : List Remark) : Prop :=
  o.held = none ∧ o.lexer.Arrives idle r d o.cursor rs

/-- After these tokens and remarks, the next request is the first that lands at such a place. -/
inductive Meets (idle : Rule → Bool) (r : Rule) (d : Cursor) :
    Scanner → List Token → List Remark → Prop
  | now {o : Scanner} {rs : List Remark} : Lands idle r d o rs → Meets idle r d o [] rs
  | later {o after : Scanner} {t : Token} {ts : List Token} {rs others : List Remark} :
      (∀ r d rs, ¬ Lands idle r d o rs) → o.next = ⟨.token t, after, rs⟩ →
      Meets idle r d after ts others → Meets idle r d o (t :: ts) (rs ++ others)

/-- What the scanner becomes when it meets such a place: it stands there with nothing in hand. -/
def halted (o : Scanner) (idle : Rule → Bool) (d : Cursor) : Scanner :=
  .mk (o.lexer.without idle) d none

variable {idle : Rule → Bool} {r : Rule} {d : Cursor} {o : Scanner} {ts : List Token}
  {rs : List Remark}

theorem next_of_lands (h : o.Lands idle r d rs) : (o.without idle).next =
    ⟨.failure (d.fail (.stalled r)), o.halted idle d, rs⟩ := by
  obtain ⟨hh, harr⟩ := h
  have hread : (o.without idle).lexer.read (o.without idle).cursor = _ :=
    Lexer.read_of_arrives harr
  rw [next_of_held_none (s := o.without idle) hh, hread]
  simp only [without, halted, hh]

theorem peek_of_lands (h : o.Lands idle r d rs) : (o.without idle).peek =
    ⟨.failure (d.fail (.stalled r)), o.halted idle d, rs⟩ := by
  rw [peek_of_held_none (s := o.without idle) h.1, next_of_lands h]
  rfl

theorem next_without (h : ∀ r d rs, ¬ o.Lands idle r d rs) : (o.without idle).next =
    { o.next with state := o.next.state.without idle } := by
  cases hh : o.held with
  | some t => simp [next, without, hh]
  | none =>
    have hread : (o.without idle).lexer.read (o.without idle).cursor = o.lexer.read o.cursor :=
      Lexer.read_of_not_arrives fun r d rs harr => h r d rs ⟨hh, harr⟩
    rw [next_of_held_none (s := o.without idle) hh, next_of_held_none hh, hread]
    rfl

/-- The next reply, when the one with all readers is known. -/
theorem next_without_of_next (h : ∀ r d rs, ¬ o.Lands idle r d rs) {outcome : Outcome}
    {after : Scanner} (hn : o.next = ⟨outcome, after, rs⟩) :
    (o.without idle).next = ⟨outcome, after.without idle, rs⟩ := by
  rw [next_without h, hn]

theorem peek_without (h : ∀ r d rs, ¬ o.Lands idle r d rs) : (o.without idle).peek =
    { o.peek with state := o.peek.state.without idle } := by
  cases hh : o.held with
  | some t => simp [peek, without, hh]
  | none =>
    rw [peek_of_held_none (s := o.without idle) hh, peek_of_held_none hh, next_without h]
    rfl

theorem drain_of_meets (h : o.Meets idle r d ts rs) : (o.without idle).drain =
    ⟨(ts, some (d.fail (.stalled r))), o.halted idle d, rs⟩ := by
  induction h with
  | now hl => rw [drain_of_next (next_of_lands hl)]
  | later hl hn hlater ih =>
    rw [drain_of_next (next_without_of_next hl hn), ih, halted, halted, lexer_of_next hn]

theorem drain_without (h : ∀ r d ts rs, ¬ o.Meets idle r d ts rs) : (o.without idle).drain =
    { o.drain with state := o.drain.state.without idle } := by
  have hlands : ∀ r d rs, ¬ o.Lands idle r d rs := fun r d rs hl => h r d [] rs (.now hl)
  fun_induction Scanner.drain o with
  | case1 o t after remarks hn tokens failure? last others hd ih =>
    have hlater : ∀ r d ts rs, ¬ after.Meets idle r d ts rs := fun r d ts rs hm =>
      h r d (t :: ts) (remarks ++ rs) (.later hlands hn hm)
    rw [drain_of_next (next_without_of_next hlands hn),
      ih hlater fun r d rs hl => hlater r d [] rs (.now hl), hd]
  | case2 o f after remarks hn =>
    rw [drain_of_next (next_without_of_next hlands hn)]
  | case3 o after remarks hn =>
    rw [drain_of_next (next_without_of_next hlands hn)]

theorem take_of_meets (h : o.Meets idle r d ts rs) {n : Nat} (hn : ts.length < n) :
    (o.without idle).take n = ⟨(ts, some (d.fail (.stalled r))), o.halted idle d, rs⟩ := by
  induction h generalizing n with
  | now hl =>
    cases n with
    | zero => cases hn
    | succ n => simp only [take, next_of_lands hl]
  | later hl hnext hlater ih =>
    cases n with
    | zero => cases hn
    | succ n =>
      simp only [take, next_without_of_next hl hnext, ih (Nat.lt_of_succ_lt_succ hn), halted,
        lexer_of_next hnext]

theorem take_without {n : Nat} (h : ∀ r d ts rs, o.Meets idle r d ts rs → n ≤ ts.length) :
    (o.without idle).take n = { o.take n with state := (o.take n).state.without idle } := by
  induction n generalizing o with
  | zero => rfl
  | succ n ih =>
    have hlands : ∀ r d rs, ¬ o.Lands idle r d rs := fun r d rs hl =>
      absurd (h r d [] rs (.now hl)) n.not_succ_le_zero
    cases hn : o.next with
    | mk outcome after remarks =>
      have hnext := next_without_of_next hlands hn
      cases outcome with
      | token t =>
        have hlater : ∀ r d ts rs, after.Meets idle r d ts rs → n ≤ ts.length := fun r d ts rs hm =>
          Nat.le_of_succ_le_succ (h r d (t :: ts) (remarks ++ rs) (.later hlands hn hm))
        simp only [take, hnext, hn, ih hlater]
      | _ => simp only [take, hnext, hn]

/-- The scan from there arrives where it stands. -/
theorem stuck_halted (h : o.Meets idle r d ts rs) :
    (o.halted idle d).Stuck (d.fail (.stalled r)) := by
  induction h with
  | now hl => exact ⟨rfl, Lexer.read_of_arrives hl.2.again⟩
  | later _ hn _ ih => rwa [halted, lexer_of_next hn] at ih

end Scanner

/-! ### Sessions -/

namespace Session

/-- The session with these readers out of service as well. -/
def without (s : Session) (idle : Rule → Bool) : Session :=
  { s with scanner := s.scanner.without idle }

/-- Whether the step asks for a token once it has delivered so many. -/
def asksAfter (s : Session) (k : Nat) : Step → Bool
  | .file => false
  | .drain => true
  | .take n => k < n
  | .pull => s.pulling && k = 0
  | _ => k = 0

/-- Within the step, after these tokens and remarks, a scan arrives for the first time at a place
of a rule whose reader is out of service. -/
def Meets (idle : Rule → Bool) (r : Rule) (d : Cursor) (s : Session) (step : Step)
    (ts : List Token) (rs : List Remark) : Prop :=
  s.scanner.Meets idle r d ts rs ∧ s.asksAfter ts.length step

/-- No scan of these steps arrives at such a place. -/
def Avoids (idle : Rule → Bool) (s : Session) : List Step → Prop
  | [] => True
  | step :: steps =>
    (∀ r d ts rs, ¬ s.Meets idle r d step ts rs) ∧ (s.perform step).state.Avoids idle steps

variable {idle : Rule → Bool} {r : Rule} {d : Cursor} {s : Session} {step : Step}
  {ts : List Token} {rs : List Remark}

/-- A step with such a scan delivers what it has so far, and fails there. -/
theorem perform_of_meets (h : s.Meets idle r d step ts rs) :
    let reply := (s.without idle).perform step
    step.delivers reply.result = ts ∧ reply.result.failure? = some (d.fail (.stalled r)) ∧
      reply.remarks = rs ∧ reply.state.scanner = s.scanner.halted idle d := by
  obtain ⟨hm, hasks⟩ := h
  have hlands : ts.length = 0 → ts = [] ∧ s.scanner.Lands idle r d rs := by
    intro hlen
    cases hm with
    | now hl => exact ⟨rfl, hl⟩
    | later => cases hlen
  cases step with
  | next =>
    obtain ⟨rfl, hl⟩ := hlands (of_decide_eq_true hasks)
    have hnext : (s.without idle).scanner.next = _ := Scanner.next_of_lands hl
    simp [perform, hnext, Step.delivers, Answer.failure?, Outcome.failure?, Outcome.token?]
  | peek =>
    obtain ⟨rfl, hl⟩ := hlands (of_decide_eq_true hasks)
    have hpeek : (s.without idle).scanner.peek = _ := Scanner.peek_of_lands hl
    simp [perform, hpeek, Step.delivers, Answer.failure?, Outcome.failure?]
  | atEnd =>
    obtain ⟨rfl, hl⟩ := hlands (of_decide_eq_true hasks)
    have hpeek : (s.without idle).scanner.peek = _ := Scanner.peek_of_lands hl
    simp [perform, hpeek, Step.delivers, Answer.failure?, Outcome.failure?]
  | file => cases hasks
  | drain =>
    have hdrain : (s.without idle).scanner.drain = _ := Scanner.drain_of_meets hm
    simp [perform, hdrain, Step.delivers, Answer.failure?]
  | take n =>
    have htake : (s.without idle).scanner.take n = _ :=
      Scanner.take_of_meets hm (of_decide_eq_true hasks)
    simp [perform, htake, Step.delivers, Answer.failure?]
  | pull =>
    obtain ⟨hpulling, hzero⟩ := Bool.and_eq_true_iff.1 hasks
    obtain ⟨rfl, hl⟩ := hlands (of_decide_eq_true hzero)
    have hnext : (s.without idle).scanner.next = _ := Scanner.next_of_lands hl
    have hpulling' : (s.without idle).pulling = true := hpulling
    simp [perform, hpulling', hnext, Step.delivers, Answer.failure?, Outcome.failure?,
      Outcome.token?]

/-- A step without such a scan comes to the same. -/
theorem perform_without (h : ∀ r d ts rs, ¬ s.Meets idle r d step ts rs) :
    (s.without idle).perform step =
      { s.perform step with state := (s.perform step).state.without idle } := by
  have hlands : s.asksAfter 0 step → ∀ r d rs, ¬ s.scanner.Lands idle r d rs :=
    fun hasks r d rs hl => h r d [] rs ⟨.now hl, hasks⟩
  cases step with
  | next =>
    have hnext : (s.without idle).scanner.next = _ := Scanner.next_without (hlands rfl)
    simp only [perform, hnext]
    rfl
  | peek =>
    have hpeek : (s.without idle).scanner.peek = _ := Scanner.peek_without (hlands rfl)
    simp only [perform, hpeek]
    rfl
  | atEnd =>
    have hpeek : (s.without idle).scanner.peek = _ := Scanner.peek_without (hlands rfl)
    simp only [perform, hpeek]
    rfl
  | file => rfl
  | drain =>
    have hdrain : (s.without idle).scanner.drain = _ :=
      Scanner.drain_without fun r d ts rs hm => h r d ts rs ⟨hm, rfl⟩
    simp only [perform, hdrain]
    rfl
  | take n =>
    have htake : (s.without idle).scanner.take n = _ :=
      Scanner.take_without fun r d ts rs hm =>
        Nat.le_of_not_lt fun hn => h r d ts rs ⟨hm, decide_eq_true hn⟩
    simp only [perform, htake]
    rfl
  | pull =>
    have hpulling : (s.without idle).pulling = s.pulling := rfl
    cases hp : s.pulling with
    | false =>
      simp only [perform, hpulling, hp, Bool.false_eq_true, ↓reduceIte]
    | true =>
      have hnext : (s.without idle).scanner.next = _ :=
        Scanner.next_without (hlands (by simp [asksAfter, hp]))
      simp only [perform, hpulling, hp, hnext, ↓reduceIte]
      rfl

theorem run_without {steps : List Step} (h : s.Avoids idle steps) :
    ((s.without idle).run steps).map shown = (s.run steps).map shown ∧
      (s.without idle).after ((s.without idle).run steps) =
        (s.after (s.run steps)).without idle := by
  induction steps generalizing s with
  | nil => exact ⟨rfl, rfl⟩
  | cons step steps ih =>
    obtain ⟨hstep, hlater⟩ := h
    obtain ⟨hshown, hafter⟩ := ih hlater
    simp only [run, perform_without hstep, List.map_cons, after, hshown, hafter, and_true]
    rfl

/-- Some steps have no such scan, or one of them has the first. -/
theorem avoids_or_meets (idle : Rule → Bool) (s : Session) (steps : List Step) :
    s.Avoids idle steps ∨ ∃ before step later, steps = before ++ step :: later ∧
      s.Avoids idle before ∧
      ∃ r d ts rs, (s.after (s.run before)).Meets idle r d step ts rs := by
  induction steps generalizing s with
  | nil => exact .inl trivial
  | cons step steps ih =>
    by_cases hstep : ∃ r d ts rs, s.Meets idle r d step ts rs
    · exact .inr ⟨[], step, steps, rfl, trivial, hstep⟩
    · have hnot : ∀ r d ts rs, ¬ s.Meets idle r d step ts rs :=
        fun r d ts rs hm => hstep ⟨r, d, ts, rs, hm⟩
      rcases ih (s.perform step).state with hlater | ⟨before, other, later, rfl, hbefore, hm⟩
      · exact .inl ⟨hnot, hlater⟩
      · exact .inr ⟨step :: before, other, later, rfl, ⟨hnot, hbefore⟩, hm⟩

/-- Readers out of service make no difference to steps of which no scan arrives at a place of
theirs. The step with the first such scan delivers what it has, makes the remarks made so far, and
fails for the rule at that place. It leaves the cursor there with nothing in hand, and every later
step that asks for a token fails alike. -/
theorem run_idle (s : Settings) (idle : Rule → Bool) (file? : Option String)
    (source : List Char) :
    let plain : Session := { scanner := .start s.lexer file? source }
    let reduced : Session := { scanner := .start { settings := s, idle := idle } file? source }
    (∀ steps, plain.Avoids idle steps ∨ ∃ before step later, steps = before ++ step :: later ∧
      plain.Avoids idle before ∧
      ∃ r d ts rs, (plain.after (plain.run before)).Meets idle r d step ts rs) ∧
    ∀ steps, plain.Avoids idle steps →
      (reduced.run steps).map shown = (plain.run steps).map shown ∧
      ∀ step r d ts rs, (plain.after (plain.run steps)).Meets idle r d step ts rs →
        let reply := (reduced.after (reduced.run steps)).perform step
        let failure : Failure := ⟨.stalled r, d.location, d.currentLine⟩
        step.delivers reply.result = ts ∧ reply.result.failure? = some failure ∧
        failure.diagnostic? = some (d.diagnose
          { category := .stalledReader
            message := s!"{r.label} reader consumed no input"
            reader? := some r.label }) ∧
        reply.remarks = rs ∧ reply.state.scanner.cursor = d ∧ reply.state.scanner.held = none ∧
        reply.state.FailsForGood failure := by
  intro plain reduced
  have hreduced : reduced = plain.without idle := by
    simp only [reduced, plain, without, Scanner.without, Lexer.without, Scanner.start,
      Bool.false_or]
  rw [hreduced]
  refine ⟨avoids_or_meets idle plain, fun steps h => ?_⟩
  obtain ⟨hshown, hafter⟩ := run_without h
  refine ⟨hshown, fun step r d ts rs hmeets => ?_⟩
  intro reply failure
  have hreply : reply = ((plain.after (plain.run steps)).without idle).perform step := by
    rw [← hafter]
  obtain ⟨hts, hfailure, hrs, hscanner⟩ := perform_of_meets hmeets
  rw [← hreply] at hts hfailure hrs hscanner
  have hstuck : reply.state.scanner.Stuck failure := hscanner ▸ Scanner.stuck_halted hmeets.1
  have hcursor : reply.state.scanner.cursor = d := by
    rw [hscanner]
    rfl
  exact ⟨hts, hfailure, rfl, hrs, hcursor, hstuck.held, failsForGood_of_stuck hstuck⟩

/-- A number without a denominator, after a comment: its reader would have found that fault. -/
theorem run_idle_number :
    let idle : Rule → Bool := (· = .number)
    let source := ['a', '/', '/', '\n', '4', '/']
    let plain : Session := { scanner := .start Settings.standard.lexer none source }
    let reduced : Session :=
      { scanner := .start { settings := .standard, idle := idle } none source }
    let remark : Remark := .skippedComment ⟨1, 1⟩ ['/', '/']
    let failure : Failure := ⟨.stalled .number, ⟨"<input>", 2, 0⟩, ['4', '/']⟩
    plain.Avoids idle [.next] ∧
      (plain.after (plain.run [.next])).Meets idle .number
        (plain.scanner.cursor.pass 4) .drain [] [remark] ∧
      ((reduced.after (reduced.run [.next])).perform .drain).remarks = [remark] ∧
      ((reduced.after (reduced.run [.next])).perform .drain).state.FailsForGood failure := by
  intro idle source plain reduced remark failure
  have havoids : plain.Avoids idle [.next] := by
    refine ⟨?_, trivial⟩
    rintro r d ts rs ⟨hm, hasks⟩
    have hname : plain.scanner.lexer.piece source = .lexeme (.name 'a' []) := by decide +kernel
    cases hm with
    | later => cases hasks
    | now hl =>
      cases hl.2 with
      | here hd _ hr hi =>
        obtain ⟨rfl, rfl⟩ := List.cons.inj hd
        obtain rfl : r = .number := of_decide_eq_true hi
        exact absurd hr (by decide +kernel)
      | blank hp => cases hname.symm.trans hp
      | comment _ hp => cases hname.symm.trans hp
  have hmeets : (plain.after (plain.run [.next])).Meets idle .number
      (plain.scanner.cursor.pass 4) .drain [] [remark] := by
    have hcursor : (plain.after (plain.run [.next])).scanner.cursor =
        plain.scanner.cursor.pass 1 := by decide +kernel
    refine ⟨.now ⟨rfl, ?_⟩, rfl⟩
    rw [hcursor]
    apply Lexer.Arrives.comment (b := ['/', '/']) (by decide) (by decide +kernel)
    apply Lexer.Arrives.blank (b := ['\n']) (by decide +kernel)
    exact .here rfl (by decide) (by decide +kernel) rfl
  obtain ⟨-, hrun⟩ := run_idle .standard idle none source
  obtain ⟨-, hfails⟩ := hrun [.next] havoids
  obtain ⟨-, -, -, hremarks, -, -, hgood⟩ := hfails .drain .number _ [] [remark] hmeets
  exact ⟨havoids, hmeets, hremarks, hgood⟩

end Session

end BeatNotation
