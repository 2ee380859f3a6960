import BeatNotation.Report
import BeatNotation.Proofs.Keywords

/-! The report against the tokens of its song. The loops are found by a scanner that is asked for
one token after another and sometimes for a look at the next one; what it comes to is read off the
list of tokens. A song whose tokens cannot be read is not scanned at all, and a scan breaks off
only at a loop that is the last token. -/

namespace BeatNotation

/-! ### What a scanner will deliver -/

/-- Nothing is read after the end of the text. -/
theorem Lexer.read_of_read_finish {x : Lexer} {c : Cursor} (h : (x.read c).result = .finish) :
    x.read (x.read c).state = ⟨.finish, (x.read c).state, []⟩ := by
  induction c using readInduction x with
  | blank c b hp ih =>
    rw [read_of_blank hp] at h ⊢
    exact ih h
  | comment c b hp ih =>
    rw [read_of_comment hp] at h ⊢
    exact ih h
  | lexeme c l hp =>
    rw [read_of_lexeme hp] at h
    cases h
  | fault c f spent hp =>
    rw [read_of_fault hp] at h
    cases h
  | finish c hp =>
    rw [read_of_finish hp]
    exact read_of_finish hp

/-- What a request comes to when these are the tokens left. -/
def Outcome.first : List Token → Outcome
  | [] => finish
  | t :: _ => token t

namespace Scanner

/-- The tokens up to the end of the text, if no failure comes first. -/
def Delivers (s : Scanner) (ts : List Token) : Prop := s.drain.result = (ts, none)

variable {s after : Scanner} {t : Token} {ts : List Token} {remarks : List Remark}

/-- After the end of the text there is nothing more. -/
theorem delivers_nil_of_next (h : s.next = ⟨.finish, after, remarks⟩) : after.Delivers [] := by
  obtain ⟨x, c, held?⟩ := s
  cases held? with
  | some t => cases congrArg Reply.result h
  | none =>
    have hr : (x.read c).result = .finish := congrArg Reply.result h
    obtain rfl : mk x (x.read c).state none = after := congrArg Reply.state h
    have hagain := congrArg Reply.result (Lexer.read_of_read_finish hr)
    rw [Delivers, drain_of_finish hagain]

theorem peek_of_next_finish (h : s.next = ⟨.finish, after, remarks⟩) :
    s.peek = ⟨.finish, after, remarks⟩ := by
  obtain ⟨x, c, held?⟩ := s
  cases held? with
  | some t => cases congrArg Reply.result h
  | none =>
    have hr : (x.read c).result = .finish := congrArg Reply.result h
    rw [← h, peek_of_held_none rfl, next_of_held_none rfl, hr]
    rfl

/-- A token shown is delivered by the next request, which leaves all as without the look. -/
theorem peek_of_next_token (h : s.next = ⟨.token t, after, remarks⟩) :
    ∃ ahead others, s.peek = ⟨.token t, ahead, others⟩ ∧ ahead.next = ⟨.token t, after, []⟩ := by
  obtain ⟨x, c, held?⟩ := s
  cases held? with
  | some u =>
    obtain rfl : u = t := Outcome.token.inj (congrArg Reply.result h)
    obtain rfl : mk x c none = after := congrArg Reply.state h
    exact ⟨mk x c (some u), [], rfl, rfl⟩
  | none =>
    have hr : (x.read c).result = .token t := congrArg Reply.result h
    obtain rfl : mk x (x.read c).state none = after := congrArg Reply.state h
    refine ⟨mk x (x.read c).state (some t), (x.read c).remarks, ?_, rfl⟩
    rw [peek_of_held_none rfl, next_of_held_none rfl, hr]
    rfl

/-- The next request brings the first of the tokens, or the end. -/
theorem Delivers.next (h : s.Delivers ts) :
    ∃ after remarks, s.next = ⟨.first ts, after, remarks⟩ ∧ after.Delivers ts.tail := by
  cases hn : s.next with
  | mk o after remarks =>
    rw [Delivers, drain_of_next hn] at h
    cases o with
    | token u =>
      obtain ⟨rfl, hend⟩ := Prod.mk.inj h
      exact ⟨after, remarks, rfl, Prod.ext rfl hend⟩
    | failure f => cases h
    | finish =>
      obtain ⟨rfl, -⟩ := Prod.mk.inj h
      exact ⟨after, remarks, rfl, delivers_nil_of_next hn⟩

/-- A look shows the same, and takes nothing away. -/
theorem Delivers.peek (h : s.Delivers ts) :
    ∃ ahead remarks, s.peek = ⟨.first ts, ahead, remarks⟩ ∧ ahead.Delivers ts := by
  obtain ⟨after, remarks, hn, hafter⟩ := h.next
  cases ts with
  | nil => exact ⟨after, remarks, peek_of_next_finish hn, hafter⟩
  | cons t ts =>
    obtain ⟨ahead, others, hpeek, hnext⟩ := peek_of_next_token hn
    refine ⟨ahead, others, hpeek, ?_⟩
    rw [Delivers, drain_of_next hnext]
    exact congrArg (fun r => (t :: r.1, r.2)) hafter

end Scanner

/-! ### The scan of a list -/

namespace Report

/-- The values of the tokens before the first closing bracket, punctuation left out. -/
def collected (ts : List Token) : List Value :=
  ((ts.takeWhile (·.value ≠ .text "]")).filter (·.kind ≠ .punctuation)).map (·.value)

/-- What a loop plays if these tokens come after its count and the word after that, and the
tokens after its body. -/
def played : List Token → List Value × List Token
  | [] => ([], [])
  | t :: ts =>
    if t.value = .text "[" then (collected ts, (ts.dropWhile (·.value ≠ .text "]")).tail)
    else ([], t :: ts)

theorem length_played_le (ts : List Token) : (played ts).2.length ≤ ts.length := by
  cases ts with
  | nil => exact Nat.le_refl _
  | cons t ts =>
    rw [played]
    split
    · have hdrop := (ts.dropWhile_suffix (·.value ≠ .text "]")).length_le
      simp only [List.length_tail, List.length_cons]
      omega
    · exact Nat.le_refl _

/-- A line for every loop. The first token after the word `Loop` is its count, and one more is
skipped; a loop without a count has no line. -/
def scanned : List Token → List String
  | [] => []
  | t :: ts =>
    if isLoopWord t then
      match ts with
      | [] => []
      | count :: ts => loopLine count.value (played ts.tail).1 :: scanned (played ts.tail).2
    else scanned ts
termination_by ts => ts.length
decreasing_by
  · have hplayed := length_played_le ts.tail
    simp only [List.length_tail, List.length_cons] at hplayed ⊢
    omega
  · exact Nat.lt_succ_self _

/-- The scan of the first tokens comes to the second: past a token that is no loop, and past a
whole loop at a time. -/
inductive Reaches : List Token → List Token → Prop
  | here {ts} : Reaches ts ts
  | pass {t ts us} : ¬ isLoopWord t → Reaches ts us → Reaches (t :: ts) us
  | loop {t count ts us} : isLoopWord t → Reaches (played ts.tail).2 us →
      Reaches (t :: count :: ts) us

/-- The scan comes to a loop that is the last token. -/
def BreaksOff (ts : List Token) : Prop := ∃ t, isLoopWord t ∧ Reaches ts [t]

variable {t count : Token} {ts : List Token}

theorem not_breaksOff_nil : ¬ BreaksOff [] := by
  rintro ⟨t, -, h⟩
  cases h

theorem breaksOff_singleton (h : isLoopWord t) : BreaksOff [t] := ⟨t, h, .here⟩

theorem breaksOff_cons (h : ¬ isLoopWord t) : BreaksOff (t :: ts) ↔ BreaksOff ts := by
  constructor
  · rintro ⟨u, hu, hr⟩
    cases hr with
    | here => exact absurd hu h
    | pass _ hr => exact ⟨u, hu, hr⟩
    | loop ht _ => exact absurd ht h
  · rintro ⟨u, hu, hr⟩
    exact ⟨u, hu, .pass h hr⟩

theorem breaksOff_loop (h : isLoopWord t) :
    BreaksOff (t :: count :: ts) ↔ BreaksOff (played ts.tail).2 := by
  constructor
  · rintro ⟨u, hu, hr⟩
    cases hr with
    | pass ht _ => exact absurd h ht
    | loop _ hr => exact ⟨u, hu, hr⟩
  · rintro ⟨u, hu, hr⟩
    exact ⟨u, hu, .loop h hr⟩

/-! ### The scan of a scanner -/

variable {s after last : Scanner} {remarks others : List Remark}

theorem bracketed_of_next {o : Outcome} (h : s.next = ⟨o, after, remarks⟩) :
    bracketed s = match o with
      | .token t =>
        if t.value = .text "]" then ⟨.ok [], after, remarks⟩
        else ⟨if t.kind = .punctuation then (bracketed after).result
            else (bracketed after).result.map (t.value :: ·),
          (bracketed after).state, remarks ++ (bracketed after).remarks⟩
      | .failure f => ⟨.error f, after, remarks⟩
      | .finish => ⟨.ok [], after, remarks⟩ := by
  rw [bracketed]
  split
  all_goals
    next hs =>
      cases h.symm.trans hs
      rfl

theorem bracketed_of_delivers (h : s.Delivers ts) :
    (bracketed s).result = .ok (collected ts) ∧
      (bracketed s).state.Delivers (ts.dropWhile (·.value ≠ .text "]")).tail := by
  induction ts generalizing s with
  | nil =>
    obtain ⟨after, remarks, hn, hafter⟩ := h.next
    rw [bracketed_of_next hn]
    exact ⟨rfl, hafter⟩
  | cons t ts ih =>
    obtain ⟨after, remarks, hn, hafter⟩ := h.next
    obtain ⟨hresult, hstate⟩ := ih hafter
    by_cases ht : t.value = .text "]"
    · rw [collected, List.takeWhile_cons_of_neg (by simpa using ht),
        List.dropWhile_cons_of_neg (by simpa using ht)]
      simp only [bracketed_of_next hn, Outcome.first, if_pos ht]
      exact ⟨rfl, hafter⟩
    · rw [collected, List.takeWhile_cons_of_pos (by simpa using ht),
        List.dropWhile_cons_of_pos (by simpa using ht)]
      simp only [bracketed_of_next hn, Outcome.first, if_neg ht]
      refine ⟨?_, hstate⟩
      by_cases hk : t.kind = .punctuation
      · simp [hk, hresult, collected]
      · simp [hk, hresult, collected, Except.map]

/-- What is played, and what is left after it. -/
theorem body_of_delivers (h : s.Delivers ts) :
    (body s).result = .ok (played ts).1 ∧ (body s).state.Delivers (played ts).2 := by
  obtain ⟨ahead, remarks, hp, hahead⟩ := h.peek
  rw [body, hp]
  cases ts with
  | nil => exact ⟨rfl, hahead⟩
  | cons t ts =>
    obtain ⟨after, others, hn, hafter⟩ := hahead.next
    by_cases ht : t.value = .text "["
    · simp only [Outcome.first, played, if_pos ht, hn]
      exact bracketed_of_delivers hafter
    · simp only [Outcome.first, played, if_neg ht]
      exact ⟨trivial, hahead⟩

theorem loop_of_delivers_nil (h : s.Delivers []) : (loop s).result = .error .missingCount := by
  obtain ⟨after, remarks, hn, -⟩ := h.next
  rw [loop, hn]
  rfl

theorem loop_of_delivers (h : s.Delivers (count :: ts)) :
    (loop s).result = .ok (loopLine count.value (played ts.tail).1) ∧
      (loop s).state.Delivers (played ts.tail).2 := by
  obtain ⟨after, remarks, hn, hafter⟩ := h.next
  obtain ⟨skipped, others, hm, hskipped⟩ := hafter.next
  obtain ⟨hresult, hstate⟩ := body_of_delivers hskipped
  rw [loop, hn]
  -- Whether a token is skipped or the end is met makes no difference.
  cases ts
  all_goals
    simp only [Outcome.first, List.tail_cons] at hm ⊢
    simp only [hm, hresult]
    exact ⟨rfl, hstate⟩

/-! ### The loops of a report -/

theorem loops_of_next {o : Outcome} (h : s.next = ⟨o, after, remarks⟩) :
    loops s = match o with
      | .token t =>
        if isLoopWord t then
          match (loop after).result with
          | .ok line => followedBy ⟨[line], none, remarks ++ (loop after).remarks⟩
              (loops (loop after).state)
          | .error fault => ⟨[], some fault, remarks ++ (loop after).remarks⟩
        else followedBy ⟨[], none, remarks⟩ (loops after)
      | .failure f => ⟨[], some (.lexical f), remarks⟩
      | .finish => ⟨[], none, remarks⟩ := by
  rw [loops]
  split
  · next hs =>
    cases h.symm.trans hs
    refine ite_congr rfl (fun _ => ?_) fun _ => rfl
    split <;> next hl => rw [hl]
  all_goals
    next hs =>
      cases h.symm.trans hs
      rfl

/-- The lines of the loops are those scanned, and a report without a fault has come to the end. -/
theorem loops_of_delivers (h : s.Delivers ts) :
    (loops s).lines = scanned ts ∧
      (BreaksOff ts ∧ (loops s).fault? = some .missingCount ∨
        ¬ BreaksOff ts ∧ (loops s).fault? = none) := by
  fun_induction scanned ts generalizing s with
  | case1 =>
    obtain ⟨after, remarks, hn, -⟩ := h.next
    rw [loops_of_next hn]
    exact ⟨rfl, .inr ⟨not_breaksOff_nil, rfl⟩⟩
  | case2 t ht =>
    obtain ⟨after, remarks, hn, hafter⟩ := h.next
    simp only [loops_of_next hn, Outcome.first, if_pos ht, loop_of_delivers_nil hafter]
    exact ⟨trivial, .inl ⟨breaksOff_singleton ht, trivial⟩⟩
  | case3 t ht count ts ih =>
    obtain ⟨after, remarks, hn, hafter⟩ := h.next
    obtain ⟨hline, hlast⟩ := loop_of_delivers hafter
    obtain ⟨hlines, hfault⟩ := ih hlast
    simp only [loops_of_next hn, Outcome.first, if_pos ht, hline, breaksOff_loop ht]
    exact ⟨congrArg (_ :: ·) hlines, hfault⟩
  | case4 t ts ht ih =>
    obtain ⟨after, remarks, hn, hafter⟩ := h.next
    simp only [loops_of_next hn, Outcome.first, if_neg ht, breaksOff_cons ht]
    exact ih hafter

/-! ### The whole report -/

theorem followedBy_of_none {r : Report} (h : r.fault? = none) (r' : Report) :
    (r.followedBy r').lines = r.lines ++ r'.lines ∧ (r.followedBy r').fault? = r'.fault? := by
  rw [followedBy, h]
  exact ⟨rfl, rfl⟩

theorem followedBy_of_some {r : Report} {e : ReportFault} (h : r.fault? = some e) (r' : Report) :
    r.followedBy r' = r := by
  rw [followedBy, h]

/-- The tokens listed are those of the song under a name of its own. -/
theorem tokenize_named (song : List Char) : (tokenize .standard (some "groove.loop") song).1 =
    ((tokenize .standard none song).1.map
      (List.map (·.under Settings.standard.keywords "groove.loop"))).mapError
        (·.inFile "groove.loop") :=
  congrArg Prod.fst (tokenize_alike (fun _ _ => Lexer.read_under rfl) rfl)

theorem tokens_of_error {song : List Char} {f : Failure}
    (h : (tokenize .standard none song).1 = .error f) :
    (tokens song).lines = ["All tokens:"] ∧
      (tokens song).fault? = some (.lexical (f.inFile "groove.loop")) := by
  have hnamed := tokenize_named song
  rw [h] at hnamed
  rw [tokens, ← Prod.eta (tokenize .standard (some "groove.loop") song), hnamed]
  exact ⟨rfl, rfl⟩

theorem tokens_of_ok {song : List Char} {ts : List Token}
    (h : (tokenize .standard none song).1 = .ok ts) :
    (tokens song).lines = "All tokens:" :: ts.map tokenLine ∧ (tokens song).fault? = none := by
  have hnamed := tokenize_named song
  have hline : ∀ t ∈ ts, tokenLine (t.under Settings.standard.keywords "groove.loop") =
      tokenLine t := by
    intro t ht
    obtain ⟨l, -, hkind, htext⟩ := exists_lexeme_of_tokenize h ht
    have hsame : t.kind.under Settings.standard.keywords t.text = t.kind := by
      rw [hkind, htext, Lexeme.kind_under]
    rw [Token.under, hsame]
    rfl
  rw [h] at hnamed
  rw [tokens, ← Prod.eta (tokenize .standard (some "groove.loop") song), hnamed]
  refine ⟨congrArg (_ :: ·) ?_, rfl⟩
  rw [List.map_map]
  exact List.map_congr_left hline

theorem lines_malformed : malformed.lines = ["", "Malformed input:",
    "broken.loop:1:7: error: expected digits after '/'\n    Loop 4//4 Times\n           ^\n" ++
      "hint: write fractions as <digits>/<digits>, e.g. 4/4"] := by
  decide +kernel

theorem fault?_malformed : malformed.fault? = none := by
  unfold malformed
  split <;> rfl

/-- The report on a song is what its tokens say. If they cannot be read, nothing is listed and the
report breaks off with their failure. Otherwise each has its line, and each loop that the scan
comes to. The report breaks off at a loop that is the last token, or else goes on to its end. -/
theorem ofSong_scans (song : List Char) :
    (∀ f, (tokenize .standard none song).1 = .error f →
      (ofSong song).lines = ["All tokens:"] ∧
      (ofSong song).fault? = some (.lexical (f.inFile "groove.loop"))) ∧
    ∀ ts, (tokenize .standard none song).1 = .ok ts →
      let scan := "All tokens:" :: ts.map tokenLine ++ "" :: "Loop bodies:" :: scanned ts
      BreaksOff ts ∧ (ofSong song).lines = scan ∧ (ofSong song).fault? = some .missingCount ∨
      ¬ BreaksOff ts ∧ (ofSong song).fault? = none ∧
        (ofSong song).lines = scan ++ ["", "Malformed input:",
          "broken.loop:1:7: error: expected digits after '/'\n    Loop 4//4 Times\n           ^\n" ++
            "hint: write fractions as <digits>/<digits>, e.g. 4/4"] := by
  constructor
  · intro f hf
    obtain ⟨hlines, hfault⟩ := tokens_of_error hf
    rw [ofSong, followedBy_of_some hfault]
    exact ⟨hlines, hfault⟩
  · intro ts hts scan
    obtain ⟨hlines, hfault⟩ := tokens_of_ok hts
    have hdelivers : (Scanner.start Settings.standard.lexer none song).Delivers ts :=
      tokenize_ok_iff.1 hts
    obtain ⟨hscanned, hend⟩ := loops_of_delivers hdelivers
    let bodies := followedBy ⟨["", "Loop bodies:"], none, []⟩
      (loops (.start Settings.standard.lexer none song))
    have hbodies : bodies.lines = "" :: "Loop bodies:" :: scanned ts :=
      congrArg ("" :: "Loop bodies:" :: ·) hscanned
    obtain ⟨hsong, hsongfault⟩ :
        (ofSong song).lines = "All tokens:" :: ts.map tokenLine ++
            (bodies.followedBy malformed).lines ∧
          (ofSong song).fault? = (bodies.followedBy malformed).fault? :=
      hlines ▸ followedBy_of_none hfault (bodies.followedBy malformed)
    rcases hend with ⟨hbreak, hmissing⟩ | ⟨hnot, hnone⟩
    · have hmissing' : bodies.fault? = some .missingCount := hmissing
      rw [followedBy_of_some hmissing'] at hsong hsongfault
      rw [hbodies] at hsong
      exact .inl ⟨hbreak, hsong, hsongfault.trans hmissing'⟩
    · have hnone' : bodies.fault? = none := hnone
      obtain ⟨hlast, hlastfault⟩ := followedBy_of_none hnone' malformed
      rw [hlast, hbodies, lines_malformed, ← List.append_assoc] at hsong
      exact .inr ⟨hnot, hsongfault.trans (hlastfault.trans fault?_malformed), hsong⟩

/-- A loop in the body of another has no line of its own, and one at the end no count. -/
theorem ofSong_scans_nested :
    let word : List Char → Nat → Token := fun text column =>
      ⟨.keyword, .text (String.ofList text), String.ofList text, ⟨"<input>", 1, column⟩⟩
    let mark : Char → Nat → Token := fun c column =>
      ⟨.punctuation, .text c.toString, c.toString, ⟨"<input>", 1, column⟩⟩
    let two : Token := ⟨.number, .integer 2, "2", ⟨"<input>", 1, 5⟩⟩
    let loop := word ['L', 'o', 'o', 'p']
    let times := word ['T', 'i', 'm', 'e', 's']
    let ts := [loop 0, two, times 7, mark '[' 13, loop 14, mark ',' 18, mark ']' 19, loop 20]
    let song := "Loop 2 Times [Loop,]Loop".toList
    (tokenize .standard none song).1 = .ok ts ∧ BreaksOff ts ∧
      (tokenize .standard none ['?']).1 =
        .error ⟨.unexpectedCharacter '?', ⟨"<input>", 1, 0⟩, ['?']⟩ ∧
      (ofSong song).lines = "All tokens:" :: ts.map tokenLine ++
        ["", "Loop bodies:", "  2 x ['Loop']"] ∧
      (ofSong song).fault? = some .missingCount ∧
      (ofSong ['?']).lines = ["All tokens:"] := by
  intro word mark two loop times ts song
  have hok : (tokenize .standard none song).1 = .ok ts := tokenize_ok_iff.2 (by decide +kernel)
  have herror : (tokenize .standard none ['?']).1 =
      .error ⟨.unexpectedCharacter '?', ⟨"<input>", 1, 0⟩, ['?']⟩ :=
    tokenize_error_iff.2 (by decide +kernel)
  have hbreak : BreaksOff ts :=
    ⟨loop 20, by decide +kernel, .loop (by decide +kernel) .here⟩
  obtain ⟨-, hscan⟩ := ofSong_scans song
  obtain ⟨hfail, -⟩ := ofSong_scans ['?']
  have hscanned : scanned ts = ["  2 x ['Loop']"] := by decide +kernel
  obtain ⟨-, hlines, hfault⟩ | ⟨hnot, -⟩ := hscan ts hok
  · rw [hscanned] at hlines
    exact ⟨hok, hbreak, herror, hlines, hfault, (hfail _ herror).1⟩
  · exact absurd hbreak hnot

end Report

end BeatNotation
