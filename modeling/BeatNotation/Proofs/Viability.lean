import BeatNotation.Proofs.Decomposition

/-! How soon a failure is found. What stands before a fault is laid out alike whatever comes
after it, and a fault is settled by the spent characters and at most two more. So a text
fails as soon as no text that goes on from there tokenizes, and no sooner. -/

namespace BeatNotation

open Alphabet

/-! ### What settles a fault -/

/-- The number of characters that settle a fault, those spent included. A slash where no
lexeme begins is settled by the character after it. -/
def Fault.reach (spent : List Char) : Fault → Nat
  | unexpectedCharacter c => if c = slash then 2 else 1
  | missingNumerator => 2
  | missingDenominator | stalled _ | numeralTooLong _ => spent.length + 1

theorem Fault.reach_pos (f : Fault) (spent : List Char) : 0 < f.reach spent := by
  cases f with
  | unexpectedCharacter c =>
    show 0 < if c = slash then 2 else 1
    split
    · exact Nat.two_pos
    · exact Nat.one_pos
  | missingNumerator => exact Nat.two_pos
  | _ => exact Nat.succ_pos _

/-- Only at a slash does a rule look at the next character. -/
theorem Rule.accepts_of_ne_slash {x : Configuration} {c : Char} (hc : c ≠ slash)
    (next next' : Option Char) (r : Rule) : r.accepts x c next = r.accepts x c next' := by
  cases r <;> simp [accepts, hc]

theorem exists_of_take_prefix {spent t : List Char} {a : Char} {rest : List Char}
    (h : (spent ++ a :: rest).take (spent.length + 1) <+: t) : ∃ u, t = spent ++ a :: u := by
  obtain ⟨u, rfl⟩ := h
  exact ⟨u, by simp [List.take_length_add_append]⟩

/-- A fault stands in every text that begins with what settles it. -/
theorem Piece.Heads.of_reach {x : Configuration} {f : Fault} {spent t t' : List Char}
    (h : (Piece.fault f spent).Heads x t) (hr : f.reach spent ≤ t.length)
    (ht : t.take (f.reach spent) <+: t') : (Piece.fault f spent).Heads x t' := by
  cases f with
  | unexpectedCharacter c =>
    obtain ⟨rfl, hb, rest, rfl, hno⟩ := h
    by_cases hc : c = slash
    · cases rest with
      | nil => simp [Fault.reach, hc] at hr
      | cons a rest =>
        rw [Fault.reach, if_pos hc] at ht
        obtain ⟨u, rfl⟩ := ht
        exact ⟨rfl, hb, a :: u, rfl, hno⟩
    · rw [Fault.reach, if_neg hc] at ht
      obtain ⟨u, rfl⟩ := ht
      refine ⟨rfl, hb, u, rfl, fun r => ?_⟩
      rw [Rule.accepts_of_ne_slash hc u.head? rest.head?]
      exact hno r
  | missingNumerator =>
    obtain ⟨rfl, d, rest, rfl, hd⟩ := h
    obtain ⟨u, rfl⟩ := ht
    exact ⟨rfl, d, u, rfl, hd⟩
  | missingDenominator =>
    obtain ⟨ds, rest, rfl, hd, rfl, hst⟩ := h
    cases rest with
    | nil =>
      simp only [Fault.reach, List.append_nil] at hr
      omega
    | cons a rest =>
      obtain ⟨u, rfl⟩ := exists_of_take_prefix ht
      exact ⟨ds, a :: u, rfl, hd, rfl, stops_cons.2 (stops_cons.1 hst)⟩
  | stalled r => exact h.elim
  | numeralTooLong n =>
    obtain ⟨l, rest, rfl, hf, he, rfl, hst⟩ := h
    cases rest with
    | nil =>
      simp only [Fault.reach, List.append_nil] at hr
      omega
    | cons a rest =>
      obtain ⟨u, rfl⟩ := exists_of_take_prefix ht
      exact ⟨l, a :: u, rfl, hf, he, rfl, stops_cons.2 (stops_cons.1 hst)⟩

/-! ### Texts that go on -/

/-- Some text that goes on from here tokenizes. -/
def Viable (s : Settings) (t : List Char) : Prop :=
  ∃ (file? : Option String) (u : List Char) (ts : List Token),
    (tokenize s file? (t ++ u)).1 = .ok ts

namespace Layout

variable {s : Settings} {file? : Option String} {rest : List Char} {d : Layout}

/-- After a layout, what settles a fault cannot be mended. -/
theorem not_viable (hd : d.Leads s.toConfiguration rest) {f : Fault} {spent : List Char}
    (hf : s.lexer.piece rest = .fault f spent) (hr : f.reach spent ≤ rest.length) :
    ¬ Viable s ((d.text ++ rest).take (d.text.length + f.reach spent)) := by
  rintro ⟨file?, u, ts, hok⟩
  rw [List.take_length_add_append, List.append_assoc] at hok
  have hh := Lexer.heads_piece s rest
  rw [hf] at hh
  have hpiece := Lexer.piece_of_heads (by simp) (hh.of_reach hr (List.prefix_append _ u))
  have hd' : d.Leads s.toConfiguration (rest.take (f.reach spent) ++ u) := by
    apply hd.of_head
    have hpos := f.reach_pos spent
    obtain ⟨n, hn⟩ : ∃ n, f.reach spent = n + 1 := ⟨f.reach spent - 1, by omega⟩
    obtain ⟨a, rest, rfl⟩ := List.exists_cons_of_length_pos (Nat.lt_of_lt_of_le hpos hr)
    rw [hn]
    exact fun _ => id
  exact tokenize_ne_ok hd' hpiece file? ts hok

/-- One more lexeme after a layout, where the text begins as the lexeme does. -/
theorem tokenize_lexeme {l : Lexeme} (hd : d.Leads s.toConfiguration rest)
    (hh : ∀ c ∈ l.text.head?, c ∈ rest.head?) (hf : l.Formed s.toConfiguration) (hs : l.Short)
    (file? : Option String) :
    (tokenize s file? (d.text ++ l.text)).1 =
      .ok (d.tokens s.keywords (s.fileFor file?) [] ++
        [l.token s.keywords
          ((Position.reached d.text).within (s.fileFor file?))]) := by
  have htext : (next [] l (last [])).text = l.text := by
    simp only [text, List.nil_append, List.append_nil]
  have hv : (next [] l (last [])).Valid s.toConfiguration := ⟨.nil, hf, hs, stops_nil _, .nil⟩
  have hok := tokenize_append (htext ▸ hd.of_head hh) hv file?
  rwa [htext, tokens, tokens, List.append_nil] at hok

/-- The digits before a slash make an integer. -/
theorem tokenize_integer {ds : List Char} (hd : d.Leads s.toConfiguration (ds ++ rest))
    (hds : IsNumeral ds) (hs : (Lexeme.integer ds).Short) : (tokenize s file? (d.text ++ ds)).1 =
      .ok (d.tokens s.keywords (s.fileFor file?) [] ++
        [(Lexeme.integer ds).token s.keywords
          ((Position.reached d.text).within (s.fileFor file?))]) := by
  obtain ⟨a, as, rfl⟩ := List.exists_cons_of_ne_nil hds.1
  exact tokenize_lexeme (l := .integer (a :: as)) hd (fun _ => id) hds hs file?

/-- A slash after digits, at the end of the text, becomes a ratio by any digit. -/
theorem tokenize_ratio {ds : List Char} (hd : d.Leads s.toConfiguration (ds ++ rest))
    (hds : IsNumeral ds) (hs : (Lexeme.integer ds).Short) {e : Char} (he : isDigit e) :
    ∃ ts, (tokenize s file? (d.text ++ (ds ++ [slash]) ++ [e])).1 = .ok ts := by
  obtain ⟨a, as, rfl⟩ := List.exists_cons_of_ne_nil hds.1
  have hf : (Lexeme.ratio (a :: as) [e]).Formed s.toConfiguration :=
    ⟨hds, by simp, by simpa using he⟩
  have hratio : (Lexeme.ratio (a :: as) [e]).Short := by
    intro es hes
    simp only [Lexeme.numerals, List.mem_cons, List.not_mem_nil, or_false] at hes
    rcases hes with rfl | rfl
    · exact hs (a :: as) (List.mem_singleton_self _)
    · show 1 ≤ Numeral.limit
      decide
  refine ⟨_, Eq.trans ?_ (tokenize_lexeme hd (fun _ => id) hf hratio file?)⟩
  simp [Lexeme.text]

end Layout

/-! ### The place of the failure -/

/-- No run of digits in the text is too long to convert. -/
def ShortRuns (t : List Char) : Prop :=
  ∀ ds, ds <:+: t → (∀ d ∈ ds, isDigit d) → ds.length ≤ Numeral.limit

theorem ShortRuns.short {x : Configuration} {l : Lexeme} {t : List Char} (ht : ShortRuns t)
    (hf : l.Formed x) (hl : l.text <:+: t) : l.Short := by
  cases l with
  | integer ds =>
    intro es hes
    obtain rfl := List.mem_singleton.1 hes
    exact ht es hl hf.2
  | ratio ds es =>
    intro fs hfs
    simp only [Lexeme.numerals, List.mem_cons, List.not_mem_nil, or_false] at hfs
    rcases hfs with rfl | rfl
    · exact ht fs ((List.prefix_append _ _).isInfix.trans hl) hf.1.2
    · exact ht fs (((List.suffix_cons _ _).trans (List.suffix_append _ _)).isInfix.trans hl) hf.2.2
  | _ => simp [Lexeme.Short, Lexeme.numerals]

/-- A text that fails is laid out up to a fault, and the drain stops after what that has spent. -/
theorem exists_fault_of_error {s : Settings} {file? : Option String} {source : List Char}
    {f : Failure} (h : (tokenize s file? source).1 = .error f) :
    let reply := (Scanner.start s.lexer file? source).drain
    let file := s.fileFor file?
    ∃ (d : Layout) (spent rest : List Char), source = d.text ++ (spent ++ rest) ∧
      d.Leads s.toConfiguration (spent ++ rest) ∧
      s.lexer.piece (spent ++ rest) = .fault f.fault spent ∧
      reply.result.1 = d.tokens s.keywords file [] ∧
      reply.state.cursor.offset = d.text.length + spent.length ∧
      f.location = (Position.reached (d.text ++ spent)).within file := by
  intro reply file
  obtain ⟨d, t, rfl, hd, rfl | ⟨g, spent, hg⟩⟩ := Layout.exists_leads s source
  · rw [List.append_nil, Layout.tokenize_before hd file?] at h
    cases h
  · have hh := Lexer.heads_piece s t
    rw [hg] at hh
    obtain ⟨rest, rfl⟩ := hh.exists_rest
    let c := Cursor.start file (d.text ++ (spent ++ rest))
    have hp : c.Placed := Cursor.placed_start _ _
    have hc : c.ahead = d.text ++ (spent ++ rest) := rfl
    have hpass : (c.pass d.text.length).ahead = spent ++ rest := Cursor.ahead_pass_length hc
    obtain ⟨hfail, hst, htokens⟩ := Layout.drain_fault hd hc hg
    have hbehind : ((c.pass d.text.length).pass spent.length).behind.reverse = d.text ++ spent := by
      rw [Cursor.behind_pass_length hpass, Cursor.behind_pass_length hc]
      rfl
    have hf : f = ((c.pass d.text.length).pass spent.length).fail g :=
      Option.some.inj ((tokenize_error_iff.1 h).symm.trans hfail)
    have hstop := (hp.pass d.text.length).pass spent.length
    rw [hstop.fail, hbehind, Cursor.file_pass, Cursor.file_pass] at hf
    refine ⟨d, spent, rest, rfl, hd, ?_, htokens hp, ?_, ?_⟩
    · rw [hf]
      exact hg
    · show (Scanner.mk s.lexer c none).drain.state.cursor.offset = _
      rw [hst, Cursor.offset_pass_length hpass, Cursor.offset_pass_length hc]
      show 0 + _ + _ = _
      rw [Nat.zero_add]
    · rw [hf]
      rfl

/-- The fault is found at the place and no sooner: what is before is tokenized as it was
delivered. Nor any later: no text tokenizes that goes on from what settles the fault, and at
the end of the text it can still be mended. -/
def Fault.Earliest (s : Settings) (file? : Option String) (source : List Char)
    (tokens : List Token) (p : Nat) : Fault → Prop
  | unexpectedCharacter c =>
    source[p]? = some c ∧
    (tokenize s file? (source.take p)).1 = .ok tokens ∧
    (c ≠ slash → ¬ Viable s (source.take (p + 1))) ∧
    (c = slash → p + 1 < source.length → ¬ Viable s (source.take (p + 2))) ∧
    (c = slash → p + 1 = source.length → (tokenize s file? (source ++ [slash])).1 = .ok tokens)
  | missingNumerator =>
    source[p]? = some slash ∧ p + 1 < source.length ∧
    (tokenize s file? (source.take p)).1 = .ok tokens ∧
    ¬ Viable s (source.take (p + 2))
  | missingDenominator =>
    0 < p ∧ source[p - 1]? = some slash ∧
    (∃ before ds, source.take (p - 1) = before ++ ds ∧ IsNumeral ds ∧
      (tokenize s file? (source.take (p - 1))).1 = .ok (tokens ++
        [(Lexeme.integer ds).token s.keywords
          ((Position.reached before).within (s.fileFor file?))])) ∧
    (p < source.length → ¬ Viable s (source.take (p + 1))) ∧
    (p = source.length → ∀ d, isDigit d → ∃ ts, (tokenize s file? (source ++ [d])).1 = .ok ts)
  | stalled _ | numeralTooLong _ => False

namespace Layout

variable {s : Settings} {file? : Option String} {rest : List Char} {d : Layout}

theorem earliest_unexpectedCharacter {c : Char} (hd : d.Leads s.toConfiguration (c :: rest))
    (hp : s.lexer.piece (c :: rest) = .fault (.unexpectedCharacter c) []) :
    (Fault.unexpectedCharacter c).Earliest s file? (d.text ++ c :: rest)
      (d.tokens s.keywords (s.fileFor file?) []) d.text.length := by
  have hnot := not_viable hd hp
  refine ⟨by simp, ?_, fun hc => ?_, ?_, ?_⟩
  · rw [List.take_left]
    exact tokenize_before hd file?
  · rw [Fault.reach, if_neg hc] at hnot
    exact hnot (by simp)
  · rintro rfl hlen
    rw [Fault.reach, if_pos rfl] at hnot
    apply hnot
    rw [List.length_append] at hlen
    omega
  · rintro rfl hlen
    obtain rfl : rest = [] := by simpa using hlen
    rw [List.append_assoc]
    exact tokenize_comment hd List.not_mem_nil file?

theorem earliest_missingNumerator {a : Char} (hd : d.Leads s.toConfiguration (slash :: a :: rest))
    (hp : s.lexer.piece (slash :: a :: rest) = .fault .missingNumerator []) :
    Fault.missingNumerator.Earliest s file? (d.text ++ slash :: a :: rest)
      (d.tokens s.keywords (s.fileFor file?) []) d.text.length := by
  refine ⟨by simp, by simp, ?_, ?_⟩
  · rw [List.take_left]
    exact tokenize_before hd file?
  · apply not_viable hd hp
    simp [Fault.reach]

theorem earliest_missingDenominator {ds : List Char}
    (hd : d.Leads s.toConfiguration (ds ++ [slash] ++ rest)) (hds : IsNumeral ds)
    (hs : (Lexeme.integer ds).Short)
    (hp : s.lexer.piece (ds ++ [slash] ++ rest) = .fault .missingDenominator (ds ++ [slash])) :
    Fault.missingDenominator.Earliest s file? (d.text ++ (ds ++ [slash] ++ rest))
      (d.tokens s.keywords (s.fileFor file?) [])
      (d.text.length + ds.length + 1) := by
  have hnot := not_viable hd hp
  have hbefore : (d.text ++ (ds ++ [slash] ++ rest)).take (d.text.length + ds.length) =
      d.text ++ ds := by
    rw [List.take_length_add_append, List.append_assoc, List.take_left]
  have hlead : d.Leads s.toConfiguration (ds ++ ([slash] ++ rest)) := by
    rwa [List.append_assoc] at hd
  unfold Fault.Earliest
  rw [Nat.add_sub_cancel, hbefore]
  refine ⟨Nat.succ_pos _, by simp, ⟨d.text, ds, rfl, hds, tokenize_integer hlead hds hs⟩,
    fun hlen => ?_, fun hlen e he => ?_⟩
  · have hreach : d.text.length + Fault.missingDenominator.reach (ds ++ [slash]) =
        d.text.length + ds.length + 1 + 1 := by
      simp [Fault.reach, Nat.add_assoc]
    rw [hreach] at hnot
    apply hnot
    simp [Fault.reach] at hlen ⊢
    omega
  · obtain rfl : rest = [] := by
      apply List.length_eq_zero_iff.1
      simp at hlen
      omega
    rw [List.append_nil]
    exact tokenize_ratio hlead hds hs he

end Layout

/-- A text without overlong digit runs fails where its failure is placed, at the earliest. -/
theorem tokenize_fails_earliest (s : Settings) (file? : Option String) (source : List Char)
    (hruns : ShortRuns source) (f : Failure) (hf : (tokenize s file? source).1 = .error f) :
    let reply := (Scanner.start s.lexer file? source).drain
    let p := reply.state.cursor.offset
    f.location =
        (Position.reached (source.take p)).within (s.fileFor file?) ∧
      f.fault.Earliest s file? source reply.result.1 p := by
  obtain ⟨d, spent, rest, rfl, hd, hp, htokens, hoffset, hloc⟩ := exists_fault_of_error hf
  have hh := Lexer.heads_piece s (spent ++ rest)
  rw [hp] at hh
  simp only [hoffset, htokens]
  constructor
  · rw [List.take_length_add_append, List.take_left]
    exact hloc
  cases hfault : f.fault with
  | unexpectedCharacter c =>
    rw [hfault] at hh hp
    obtain ⟨rfl, -, u, ht, -⟩ := hh
    rw [List.nil_append] at ht
    subst ht
    exact Layout.earliest_unexpectedCharacter hd hp
  | missingNumerator =>
    rw [hfault] at hh hp
    obtain ⟨rfl, a, u, ht, -⟩ := hh
    rw [List.nil_append] at ht
    subst ht
    exact Layout.earliest_missingNumerator hd hp
  | missingDenominator =>
    rw [hfault] at hh hp
    obtain ⟨ds, u, rfl, hds, -, -⟩ := hh
    have hinfix : ds <:+: d.text ++ (ds ++ [slash] ++ rest) := ⟨d.text, [slash] ++ rest, by simp⟩
    have hshort : (Lexeme.integer ds).Short :=
      hruns.short (x := s.toConfiguration) (l := .integer ds) hds hinfix
    have hstop : d.text.length + (ds ++ [slash]).length = d.text.length + ds.length + 1 := by
      rw [List.length_append, List.length_singleton, Nat.add_assoc]
    rw [hstop]
    exact Layout.earliest_missingDenominator hd hds hshort hp
  | stalled r =>
    rw [hfault] at hh
    exact hh
  | numeralTooLong n =>
    rw [hfault] at hh
    obtain ⟨l, u, rfl, hl, he, ht, -⟩ := hh
    have hshort : l.Short := hruns.short hl ⟨d.text, rest, by simp⟩
    rw [Lexeme.excess?_eq_none_iff.2 hshort] at he
    cases he

/-- After `4/` a second slash is one too many, whatever follows. -/
theorem tokenize_fails_earliest_slashes :
    ShortRuns ['4', '/', '/'] ∧
      (tokenize .standard none ['4', '/', '/']).1 =
        .error ⟨.missingDenominator, ⟨"<input>", 1, 2⟩, ['4', '/', '/']⟩ ∧
      ¬ Viable .standard ['4', '/', '/'] := by
  have hruns : ShortRuns ['4', '/', '/'] := fun ds h _ => Nat.le_trans h.length_le (by decide)
  have hf : (tokenize .standard none ['4', '/', '/']).1 =
      .error ⟨.missingDenominator, ⟨"<input>", 1, 2⟩, ['4', '/', '/']⟩ :=
    tokenize_error_iff.2 (by decide +kernel)
  have hp : (Scanner.start Settings.standard.lexer none
      ['4', '/', '/']).drain.state.cursor.offset = 2 := by decide +kernel
  have h := (tokenize_fails_earliest .standard none _ hruns _ hf).2
  simp only [hp] at h
  exact ⟨hruns, hf, h.2.2.2.1 (by decide)⟩

end BeatNotation
