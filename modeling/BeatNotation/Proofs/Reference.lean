import BeatNotation.Session

/-! The reference sequence of a text: the outcomes of asking a fresh scanner for the next
token over and over. Whatever steps a session takes, it has made some number of the
reference's reads and no others. What it has delivered, with the token it holds, is what
those reads came to; every failure among them has been reported, and each of them once. -/

namespace BeatNotation

def Outcome.failure? : Outcome → Option Failure
  | failure f => some f
  | _ => none

theorem filterMap_singleton {α β : Type} (f : α → Option β) (a : α) :
    [a].filterMap f = (f a).toList := by
  cases h : f a <;> simp [h]

/-! ### The reference -/

namespace Scanner

/-- The outcomes of asking so many times for the next token. -/
def nexts (s : Scanner) : Nat → Reply Scanner (List Outcome)
  | 0 => ⟨[], s, []⟩
  | n + 1 =>
    let sofar := s.nexts n
    let reply := sofar.state.next
    ⟨sofar.result ++ [reply.result], reply.state, sofar.remarks ++ reply.remarks⟩

theorem next_of_held_none {s : Scanner} (h : s.held = none) :
    s.next = ⟨(s.lexer.read s.cursor).result, { s with cursor := (s.lexer.read s.cursor).state },
      (s.lexer.read s.cursor).remarks⟩ := by
  rw [next, h]

theorem peek_of_held_none {s : Scanner} (h : s.held = none) :
    s.peek = ⟨s.next.result, { s.next.state with held := s.next.result.token? },
      s.next.remarks⟩ := by
  rw [peek, h, next_of_held_none h]

/-- The reference only moves the cursor: it never holds a token. -/
theorem state_nexts {s : Scanner} (h : s.held = none) (n : Nat) :
    (s.nexts n).state.lexer = s.lexer ∧ (s.nexts n).state.held = none := by
  induction n with
  | zero => exact ⟨rfl, h⟩
  | succ n ih =>
    simp only [nexts, next_of_held_none ih.2]
    exact ih

/-! ### Following the reference -/

/-- The scanner has made `n` of the reference's reads. The tokens delivered so far and the
one held, the failures reported and the remarks made are those of these reads. -/
structure Follows (fresh s : Scanner) (n : Nat) (tokens : List Token) (failures : List Failure)
    (remarks : List Remark) : Prop where
  lexer : s.lexer = fresh.lexer
  cursor : s.cursor = (fresh.nexts n).state.cursor
  held : ∀ t, s.held = some t → (fresh.nexts n).result.getLast? = some (.token t)
  tokens : tokens ++ s.held.toList = (fresh.nexts n).result.filterMap Outcome.token?
  failures : failures = (fresh.nexts n).result.filterMap Outcome.failure?
  remarks : remarks = (fresh.nexts n).remarks

variable {fresh s : Scanner} {n : Nat} {ts : List Token} {fs : List Failure} {rs : List Remark}

theorem Follows.start (h : fresh.held = none) : Follows fresh fresh 0 [] [] [] where
  lexer := rfl
  cursor := rfl
  held t ht := by rw [h] at ht; cases ht
  tokens := by rw [h]; rfl
  failures := rfl
  remarks := rfl

/-- With nothing held, the scanner stands just where the reference does. -/
theorem Follows.eq_nexts (h : Follows fresh s n ts fs rs) (hf : fresh.held = none)
    (hs : s.held = none) : s = (fresh.nexts n).state := by
  obtain ⟨hl, hh⟩ := state_nexts hf n
  obtain ⟨l, c, t⟩ := s
  cases hn : (fresh.nexts n).state with
  | mk l' c' t' =>
    rw [hn] at hl hh
    have hc := h.cursor
    rw [hn] at hc
    obtain rfl : l = l' := h.lexer.trans hl.symm
    obtain rfl : c = c' := hc
    obtain rfl : t = t' := hs.trans hh.symm
    rfl

/-- A request of an empty-handed scanner is the reference's next read. -/
theorem Follows.read (h : Follows fresh s n ts fs rs) (hf : fresh.held = none)
    (hs : s.held = none) : Follows fresh s.next.state (n + 1) (ts ++ s.next.result.token?.toList)
      (fs ++ s.next.result.failure?.toList) (rs ++ s.next.remarks) := by
  have he := h.eq_nexts hf hs
  have ht := h.tokens
  have hn := (state_nexts hf (n + 1)).2
  rw [hs, Option.toList_none, List.append_nil] at ht
  simp only [nexts, ← he] at hn
  refine ⟨?_, ?_, ?_, ?_, ?_, ?_⟩
  · rw [next_of_held_none hs]
    exact h.lexer
  · simp only [nexts, ← he]
  · intro t hh
    rw [hn] at hh
    cases hh
  · simp only [nexts, ← he, hn, ht, List.filterMap_append, filterMap_singleton,
      Option.toList_none, List.append_nil]
  · simp only [nexts, ← he, h.failures, List.filterMap_append, filterMap_singleton]
  · simp only [nexts, ← he, h.remarks]

/-- Peeking shows what the next token comes to. -/
theorem result_peek (s : Scanner) : s.peek.result = s.next.result := by
  unfold peek next
  split <;> rfl

/-- A request comes to the token in hand, or else to the reference's next outcome. -/
theorem Follows.result_next (h : Follows fresh s n ts fs rs) (hf : fresh.held = none) :
    s.next.result = match s.held with
      | none => (fresh.nexts n).state.next.result
      | some t => .token t := by
  cases hs : s.held with
  | none => rw [h.eq_nexts hf hs]
  | some t => rw [Scanner.next, hs]

theorem Follows.next (h : Follows fresh s n ts fs rs) (hf : fresh.held = none) :
    ∃ m, Follows fresh s.next.state m (ts ++ s.next.result.token?.toList)
      (fs ++ s.next.result.failure?.toList) (rs ++ s.next.remarks) := by
  cases hs : s.held with
  | none => exact ⟨n + 1, h.read hf hs⟩
  | some t =>
    have hn : s.next = ⟨.token t, { s with held := none }, []⟩ := by rw [Scanner.next, hs]
    have ht := h.tokens
    rw [hs] at ht
    rw [hn]
    exact ⟨n, h.lexer, h.cursor, by simp, by simpa [Outcome.token?] using ht,
      by simpa [Outcome.failure?] using h.failures, by simpa using h.remarks⟩

theorem Follows.peek (h : Follows fresh s n ts fs rs) (hf : fresh.held = none) :
    ∃ m, Follows fresh s.peek.state m ts (fs ++ s.peek.result.failure?.toList)
      (rs ++ s.peek.remarks) := by
  cases hs : s.held with
  | none =>
    have hr := h.read hf hs
    have hh : s.next.state.held = none := by rw [next_of_held_none hs]; exact hs
    have ht := hr.tokens
    rw [hh, Option.toList_none, List.append_nil] at ht
    rw [peek_of_held_none hs]
    refine ⟨n + 1, hr.lexer, hr.cursor, ?_, ht, hr.failures, hr.remarks⟩
    intro t hp
    have hlast : s.next.result = .token t := by
      cases hres : s.next.result <;> simp_all [Outcome.token?]
    rw [nexts, ← h.eq_nexts hf hs]
    simp [hlast]
  | some t =>
    have hp : s.peek = ⟨.token t, s, []⟩ := by rw [Scanner.peek, hs]
    rw [hp]
    exact ⟨n, by simpa [Outcome.failure?] using h⟩

theorem Follows.drain (h : Follows fresh s n ts fs rs) (hf : fresh.held = none) :
    ∃ m, Follows fresh s.drain.state m (ts ++ s.drain.result.1)
      (fs ++ s.drain.result.2.toList) (rs ++ s.drain.remarks) := by
  fun_induction Scanner.drain s generalizing n ts fs rs with
  | case1 s t after remarks hn tokens failure? last others hd ih =>
    obtain ⟨k, hk⟩ := h.next hf
    rw [hn] at hk
    obtain ⟨m, hm⟩ := ih hk
    rw [hd] at hm
    exact ⟨m, by simpa [Outcome.token?, Outcome.failure?] using hm⟩
  | case2 s f after remarks hn =>
    obtain ⟨m, hm⟩ := h.next hf
    rw [hn] at hm
    exact ⟨m, by simpa [Outcome.token?, Outcome.failure?] using hm⟩
  | case3 s after remarks hn =>
    obtain ⟨m, hm⟩ := h.next hf
    rw [hn] at hm
    exact ⟨m, by simpa [Outcome.token?, Outcome.failure?] using hm⟩

theorem Follows.take (h : Follows fresh s n ts fs rs) (hf : fresh.held = none) (k : Nat) :
    ∃ m, Follows fresh (s.take k).state m (ts ++ (s.take k).result.1)
      (fs ++ (s.take k).result.2.toList) (rs ++ (s.take k).remarks) := by
  fun_induction Scanner.take s k generalizing n ts fs rs with
  | case1 s => exact ⟨n, by simpa using h⟩
  | case2 s k t after remarks hn tokens failure? last others hd ih =>
    obtain ⟨j, hj⟩ := h.next hf
    rw [hn] at hj
    obtain ⟨m, hm⟩ := ih hj
    rw [hd] at hm
    exact ⟨m, by simpa [Outcome.token?, Outcome.failure?] using hm⟩
  | case3 s k f after remarks hn =>
    obtain ⟨m, hm⟩ := h.next hf
    rw [hn] at hm
    exact ⟨m, by simpa [Outcome.token?, Outcome.failure?] using hm⟩
  | case4 s k after remarks hn =>
    obtain ⟨m, hm⟩ := h.next hf
    rw [hn] at hm
    exact ⟨m, by simpa [Outcome.token?, Outcome.failure?] using hm⟩

end Scanner

/-! ### Sessions -/

/-- The tokens that a step delivers for good, given its answer. -/
def Step.delivers : Step → Answer → List Token
  | next, .outcome o | pull, .outcome o => o.token?.toList
  | drain, .tokens ts _ | take _, .tokens ts _ => ts
  | _, _ => []

/-- The failure that an answer reports. -/
def Answer.failure? : Answer → Option Failure
  | outcome o => o.failure?
  | tokens _ f => f
  | _ => none

namespace Session

/-- All tokens that the steps of a run deliver. -/
def delivered (steps : List Step) (replies : List (Reply Session Answer)) : List Token :=
  (steps.zipWith (fun step reply => step.delivers reply.result) replies).flatten

/-- The session after the last of some replies. -/
def after (s : Session) : List (Reply Session Answer) → Session
  | [] => s
  | reply :: replies => reply.state.after replies

variable {fresh : Scanner} {s : Session} {n : Nat} {ts : List Token} {fs : List Failure}
  {rs : List Remark}

theorem follows_perform (h : fresh.Follows s.scanner n ts fs rs) (hf : fresh.held = none)
    (step : Step) : ∃ m, fresh.Follows (s.perform step).state.scanner m
      (ts ++ step.delivers (s.perform step).result)
      (fs ++ (s.perform step).result.failure?.toList) (rs ++ (s.perform step).remarks) := by
  cases step with
  | next => exact h.next hf
  | peek => simpa [perform, Step.delivers, Answer.failure?] using h.peek hf
  | atEnd =>
    obtain ⟨m, hm⟩ := h.peek hf
    refine ⟨m, ?_⟩
    cases hp : s.scanner.peek with
    | mk outcome scanner remarks =>
      rw [hp] at hm
      cases outcome <;> simpa [perform, hp, Step.delivers, Answer.failure?, Outcome.failure?] using hm
  | file => exact ⟨n, by simpa [perform, Step.delivers, Answer.failure?] using h⟩
  | drain => exact h.drain hf
  | take k => exact h.take hf k
  | pull =>
    rw [perform]
    split
    · exact h.next hf
    · exact ⟨n, by simpa [Step.delivers, Answer.failure?, Outcome.token?, Outcome.failure?] using h⟩

theorem follows_run (h : fresh.Follows s.scanner n ts fs rs) (hf : fresh.held = none)
    (steps : List Step) : ∃ m, fresh.Follows (s.after (s.run steps)).scanner m
      (ts ++ delivered steps (s.run steps))
      (fs ++ (s.run steps).filterMap (·.result.failure?))
      (rs ++ (s.run steps).flatMap (·.remarks)) := by
  induction steps generalizing s n ts fs rs with
  | nil => exact ⟨n, by simpa [run, after, delivered] using h⟩
  | cons step steps ih =>
    obtain ⟨k, hk⟩ := follows_perform h hf step
    obtain ⟨m, hm⟩ := ih hk
    refine ⟨m, ?_⟩
    rw [List.append_assoc] at hm
    cases hfail : (s.perform step).result.failure? <;>
      simpa [run, after, delivered, hfail] using hm

/-- Whether every pull of a run has brought a token. -/
def pullsBring (steps : List Step) (replies : List (Reply Session Answer)) : Bool :=
  (steps.zip replies).all fun (step, reply) =>
    step ≠ .pull || !(step.delivers reply.result).isEmpty

/-- A puller draws until a pull of it has brought no token. -/
theorem pulling_perform (s : Session) (step : Step) : (s.perform step).state.pulling =
    (s.pulling && (step ≠ .pull || !(step.delivers (s.perform step).result).isEmpty)) := by
  cases step with
  | pull =>
    rw [perform]
    split
    · next hp =>
      cases hn : s.scanner.next.result <;> simp [hp, hn, Step.delivers, Outcome.token?]
    · next hp => simp [hp]
  | _ => simp [perform]

theorem pulling_run (s : Session) (steps : List Step) : (s.after (s.run steps)).pulling =
    (s.pulling && pullsBring steps (s.run steps)) := by
  induction steps generalizing s with
  | nil => exact (Bool.and_true _).symm
  | cons step steps ih =>
    rw [run, after, ih, pulling_perform, Bool.and_assoc]
    rfl

/-- After any steps, the session has made some number of the reference's reads. The cursor
and the remarks are theirs, and so are the failures reported. The tokens delivered are their
tokens, all but the last of them while that one is held. A step that asks for a token now is
answered by the one held, or else by the reference's next outcome; the puller asks as long as
all its pulls have brought tokens. -/
theorem run_delivers_reference (x : Lexer) (file? : Option String) (source : List Char)
    (steps : List Step) :
    let fresh := Scanner.start x file? source
    let session : Session := { scanner := fresh }
    let replies := session.run steps
    let now := session.after replies
    let last := now.scanner
    ∃ n,
      last.cursor = (fresh.nexts n).state.cursor ∧
      replies.flatMap (·.remarks) = (fresh.nexts n).remarks ∧
      replies.filterMap (·.result.failure?) = (fresh.nexts n).result.filterMap (·.failure?) ∧
      (match last.held with
        | none => delivered steps replies = (fresh.nexts n).result.filterMap (·.token?)
        | some t => (fresh.nexts n).result.getLast? = some (.token t) ∧
            delivered steps replies ++ [t] = (fresh.nexts n).result.filterMap (·.token?)) ∧
      let asked := match last.held with
        | none => (fresh.nexts n).state.next.result
        | some t => .token t
      (now.perform .next).result = .outcome asked ∧
      (now.perform .peek).result = .outcome asked ∧
      (now.perform .atEnd).result = (match asked with
        | .token _ => .flag false
        | .finish => .flag true
        | .failure f => .outcome (.failure f)) ∧
      (now.perform .pull).result =
        .outcome (if pullsBring steps replies then asked else .finish) := by
  intro fresh session replies now last
  obtain ⟨n, h⟩ := follows_run (s := session) (.start rfl) rfl steps
  have ht : delivered steps replies ++ last.held.toList =
      (fresh.nexts n).result.filterMap (·.token?) := h.tokens
  refine ⟨n, h.cursor, h.remarks, h.failures, ?_, ?_⟩
  · cases hh : last.held with
    | none => simpa [hh] using ht
    | some t => exact ⟨h.held t hh, by simpa [hh] using ht⟩
  · intro asked
    have hnext : last.next.result = asked := h.result_next rfl
    have hpeek : last.peek.result = asked := last.result_peek.trans hnext
    refine ⟨congrArg Answer.outcome hnext, congrArg Answer.outcome hpeek, ?_, ?_⟩
    · rw [← hpeek]
      rfl
    · have hpulling : pullsBring steps replies = now.pulling :=
        ((session.pulling_run steps).trans (Bool.true_and _)).symm
      rw [← hnext, hpulling, perform]
      split <;> rfl

end Session

end BeatNotation
