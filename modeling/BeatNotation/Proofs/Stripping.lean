import BeatNotation.Proofs.Lines
import BeatNotation.Proofs.Spacing
import BeatNotation.Proofs.Viability

/-! Comments cut off line by line. A text reads as it does with every line cut at its first
double slash, however the lexemes lie, unless a cut leaves an integer at the end of its line:
there the slash would have gone on with it. -/

namespace BeatNotation

open Alphabet

namespace Text

/-- A line up to its first double slash. -/
def uncommented : List Char → List Char
  | [] => []
  | c :: rest => if c = slash ∧ rest.head? = some slash then [] else c :: uncommented rest

/-- A text with every line cut at its first double slash. -/
def stripped (text : List Char) : List Char := ['\n'].intercalate ((lines text).map uncommented)

theorem uncommented_slashes (rest : List Char) : uncommented (slash :: slash :: rest) = [] :=
  if_pos ⟨rfl, rfl⟩

/-- Nothing is cut off a line, or a comment is. -/
theorem uncommented_cases (line : List Char) : uncommented line = line ∨
    ∃ body, line = uncommented line ++ slash :: slash :: body := by
  induction line with
  | nil => exact .inl rfl
  | cons c rest ih =>
    rw [uncommented]
    split
    · next h =>
      obtain ⟨rfl, hrest⟩ := h
      obtain ⟨body, rfl⟩ := List.head?_eq_some_iff.1 hrest
      exact .inr ⟨body, rfl⟩
    · rcases ih with ih | ⟨body, ih⟩
      · exact .inl (by rw [ih])
      · exact .inr ⟨body, by rw [List.cons_append, ← ih]⟩

theorem uncommented_prefix_line (line : List Char) : uncommented line <+: line := by
  rcases uncommented_cases line with h | ⟨body, h⟩
  · exact ⟨[], by rw [List.append_nil, h]⟩
  · exact ⟨_, h.symm⟩

/-- Where the cut leaves a beginning whole, it is that of the rest. -/
theorem uncommented_append {t u v : List Char} (h : uncommented (t ++ u) = t ++ v) :
    uncommented u = v := by
  induction t with
  | nil => exact h
  | cons c t ih =>
    rw [List.cons_append, uncommented] at h
    split at h
    · cases h
    · exact ih (List.cons.inj h).2

theorem lines_stripped (text : List Char) :
    lines (stripped text) = (lines text).map uncommented := by
  apply split_intercalate
  · exact fun h => split_ne_nil '\n' text (List.map_eq_nil_iff.1 h)
  · intro line hl
    obtain ⟨whole, hw, rfl⟩ := List.mem_map.1 hl
    exact fun hm => not_mem_of_mem_split hw ((uncommented_prefix_line whole).subset hm)

end Text

/-! ### Layouts of a line that is cut -/

/-- Only an integer goes on with a slash. -/
theorem Lexeme.goesOn_slash {l : Lexeme} (h : l.goesOn slash) : ∃ ds, l = .integer ds := by
  cases l with
  | integer ds => exact ⟨ds, rfl⟩
  | name c cs => exact absurd (show isAlphanumeric slash from h) (by decide)
  | marker k c cs =>
    have hbody : slash ∉ k.body := by cases k <;> decide
    exact absurd (of_decide_eq_true h) hbody
  | punctuation c => cases h
  | operator c => cases h
  | ratio ds es => exact absurd (show isDigit slash from h) (by decide)

/-- A gap that is not cut has no comment. -/
theorem Gap.blank_of_uncommented {g rest t u : List Char} (hg : Gap g rest)
    (h : Text.uncommented (g ++ t) = g ++ u) : ∀ c ∈ g, isBlank c := by
  induction hg with
  | nil => exact fun c hc => absurd hc List.not_mem_nil
  | @blank a g rest ha hg ih =>
    intro c hc
    rcases List.mem_cons.1 hc with rfl | hc
    · exact ha
    · exact ih (Text.uncommented_append (t := [a]) h) c hc
  | comment =>
    simp only [List.cons_append, Text.uncommented_slashes] at h
    cases h

namespace Layout

variable {s : Settings} {d : Layout}

theorem plain_of_uncommented {x : Configuration} (hv : d.Valid x) {tail : List Char}
    (h : Text.uncommented (d.text ++ tail) = d.text) : d.Plain x := by
  induction d with
  | last g => exact Gap.blank_of_uncommented hv (t := tail) (u := []) (by rwa [List.append_nil])
  | next g l d ih =>
    obtain ⟨hg, hf, hs, -, hd⟩ := hv
    rw [text, List.append_assoc] at h
    have hrest := Text.uncommented_append h
    rw [List.append_assoc] at hrest
    exact ⟨hg.blank_of_uncommented h, hf, hs, ih hd (Text.uncommented_append hrest)⟩

/-- Without its blanks, a plain layout is the texts of its lexemes. -/
theorem filter_text (hd : d.Plain s.toConfiguration) :
    d.text.filter (fun c => !isBlank c) = d.lexemes.flatMap Lexeme.text := by
  have hnone : ∀ g : List Char, (∀ c ∈ g, isBlank c) → g.filter (fun c => !isBlank c) = [] :=
    fun g hg => List.filter_eq_nil_iff.2 (by simpa using hg)
  induction d with
  | last g => exact hnone g hd
  | next g l d ih =>
    obtain ⟨hg, hf, -, hd⟩ := hd
    have hall : l.text.filter (fun c => !isBlank c) = l.text :=
      List.filter_eq_self.2 fun c hc => by simpa using Lexeme.not_isBlank_of_mem hf hc
    rw [text, List.filter_append, List.filter_append, hnone g hg, hall, ih hd, lexemes,
      List.flatMap_cons, List.nil_append]

/-- The lexeme that the text ends with, if it does not end with a blank. -/
def closing? : Layout → Option Lexeme
  | last _ => none
  | next _ l d => if d.text = [] then some l else d.closing?

theorem eq_last_of_text (hd : d.Plain s.toConfiguration) (ht : d.text = []) : d = last [] := by
  cases d with
  | last g => rw [show g = [] from ht]
  | next g l d =>
    have hl : l.text = [] := (List.append_eq_nil_iff.1 (List.append_eq_nil_iff.1 ht).2).1
    exact absurd hl (Lexeme.text_ne_nil hd.2.1)

/-- A plain layout leads up to a slash unless it ends with an integer. -/
theorem leads_slash (hv : d.Valid s.toConfiguration) (hd : d.Plain s.toConfiguration)
    (hc : ∀ ds, d.closing? ≠ some (.integer ds)) (rest : List Char) :
    d.Leads s.toConfiguration (slash :: rest) := by
  induction d with
  | last g => exact gap_of_blank hd _
  | next g l d ih =>
    obtain ⟨-, hf, hs, he, hv⟩ := hv
    obtain ⟨hg, -, -, hd⟩ := hd
    rw [closing?] at hc
    have hstop : Stops l.goesOn (d.text ++ slash :: rest) := by
      cases ht : d.text with
      | nil =>
        rw [if_pos ht] at hc
        apply stops_cons.2
        intro h
        obtain ⟨ds, rfl⟩ := Lexeme.goesOn_slash h
        exact hc ds rfl
      | cons a as => exact stops_cons.2 (stops_cons.1 (ht ▸ he))
    have hlater : d.Leads s.toConfiguration (slash :: rest) := by
      apply ih hv hd
      intro ds h
      split at hc
      · next ht =>
        rw [eq_last_of_text hd ht] at h
        cases h
      · exact hc ds h
    exact ⟨gap_of_blank hg _, hf, hs, hstop, hlater⟩

/-- What comes before the closing lexeme is laid out up to it. -/
theorem exists_of_closing (hv : d.Valid s.toConfiguration) {l : Lexeme} (hl : d.closing? = some l) :
    l.Formed s.toConfiguration ∧
      ∃ d' : Layout, d.text = d'.text ++ l.text ∧ d'.Leads s.toConfiguration l.text := by
  induction d with
  | last g => cases hl
  | next g m d ih =>
    obtain ⟨hg, hf, hs, he, hv⟩ := hv
    rw [closing?] at hl
    split at hl
    · next ht =>
      obtain rfl := Option.some.inj hl
      rw [ht, List.append_nil] at hg
      exact ⟨hf, last g, by simp [text, ht], hg⟩
    · obtain ⟨hfl, d', ht, hd'⟩ := ih hv hl
      rw [ht] at hg he
      exact ⟨hfl, next g m d', by simp [text, ht], hg, hf, hs, he, hd'⟩

end Layout

namespace Lexer

variable {s : Settings}

/-- After an integer, the first of two slashes is taken for that of a ratio. -/
theorem piece_slashes {ds : List Char} (hd : IsNumeral ds) (body : List Char) :
    s.lexer.piece (ds ++ slash :: slash :: body) =
      .fault .missingDenominator (ds ++ [slash]) := by
  apply piece_of_heads (by simp)
  exact ⟨ds, slash :: body, rfl, hd, by simp, stops_cons.2 (by decide)⟩

/-- A fault before a cut is still there with the comment. -/
theorem exists_fault_of_uncommented {f : Fault} {spent rest body : List Char}
    (hf : s.lexer.piece rest = .fault f spent)
    (hcut : Text.uncommented (rest ++ slash :: slash :: body) = rest) :
    ∃ g spent', s.lexer.piece (rest ++ slash :: slash :: body) = .fault g spent' := by
  have hh := heads_piece s rest
  rw [hf] at hh
  by_cases hr : f.reach spent ≤ rest.length
  · have ht : rest.take (f.reach spent) <+: rest ++ slash :: slash :: body :=
      (List.take_prefix _ _).trans (List.prefix_append _ _)
    exact ⟨f, spent, piece_of_heads (by simp) (hh.of_reach hr ht)⟩
  · -- the fault was seen at the end of the text only
    have hlone : ∀ t, rest = t ++ [slash] → False := by
      rintro t rfl
      rw [List.append_assoc] at hcut
      cases (Text.uncommented_slashes _).symm.trans (Text.uncommented_append hcut)
    cases f with
    | unexpectedCharacter c =>
      obtain ⟨rfl, -, u, rfl, -⟩ := hh
      rw [Fault.reach] at hr
      split at hr
      · next hc =>
        obtain rfl : u = [] := by simpa using hr
        exact (hlone [] (by rw [hc, List.nil_append])).elim
      · exact absurd (Nat.succ_pos _) hr
    | missingNumerator =>
      obtain ⟨rfl, a, u, rfl, -⟩ := hh
      simp [Fault.reach] at hr
    | missingDenominator =>
      obtain ⟨ds, u, rfl, -, rfl, -⟩ := hh
      simp only [Fault.reach, List.length_append] at hr
      obtain rfl : u = [] := List.length_eq_zero_iff.1 (by omega)
      exact (hlone ds (List.append_nil _)).elim
    | stalled r => exact hh.elim
    | numeralTooLong n =>
      obtain ⟨l, u, rfl, hl, he, rfl, -⟩ := hh
      obtain rfl : u = [] := by simpa [Fault.reach] using hr
      rw [List.append_nil]
      by_cases hslash : l.goesOn slash
      · obtain ⟨ds, rfl⟩ := Lexeme.goesOn_slash hslash
        exact ⟨_, _, piece_slashes hl body⟩
      · refine ⟨.numeralTooLong n, l.text, ?_⟩
        rw [piece_formed hl (stops_cons.2 hslash), he]

end Lexer

/-! ### A line and its cut -/

/-- A number written without a slash. -/
def Token.isInteger (t : Token) : Bool := t.kind = .number && !t.isFraction

theorem Lexeme.isInteger_token {keywords : Vocabulary} {location : Location} {l : Lexeme} :
    (l.token keywords location).isInteger ↔ ∃ ds, l = .integer ds := by
  cases l with
  | name c cs =>
    simp only [Token.isInteger, token, kind]
    split <;> simp
  | _ => simp [Token.isInteger, Token.isFraction, token, kind, value, Value.isRatio]

theorem Position.reached_of_not_mem {t : List Char} (h : '\n' ∉ t) : reached t = ⟨1, t.length⟩ := by
  have hrun : ∀ c ∈ t.reverse, decide (c ≠ '\n') = true := by
    intro c hc
    rw [decide_eq_true_eq]
    rintro rfl
    exact h (List.mem_reverse.1 hc)
  have htake := takeWhile_run hrun (stops_nil _)
  rw [List.append_nil] at htake
  rw [reached, List.count_eq_zero.2 h, htake, List.length_reverse]

/-- The tokens of a line stand in its first line. -/
theorem Layout.line_of_mem_tokens {d : Layout} {keywords : Vocabulary} {file : String}
    {before : List Char} (h : '\n' ∉ before ++ d.text) {t : Token}
    (ht : t ∈ d.tokens keywords file before) : t.location.line = 1 := by
  induction d generalizing before with
  | last g => cases ht
  | next g l d ih =>
    rw [text, ← List.append_assoc, ← List.append_assoc] at h
    rcases List.mem_cons.1 ht with rfl | ht
    · have hbefore : '\n' ∉ before ++ g := fun hm =>
        h (List.mem_append_left _ (List.mem_append_left _ hm))
      simp [Lexeme.token, Position.reached_of_not_mem hbefore, Position.within]
    · exact ih h ht

/-- An integer token ends a line just when the line closes with an integer. -/
theorem Layout.exists_ending_iff {s : Settings} {d : Layout} (hd : d.Plain s.toConfiguration)
    (keywords : Vocabulary) (file : String) (before : List Char) (h : '\n' ∉ before ++ d.text) :
    (∃ t ∈ d.tokens keywords file before, t.isInteger ∧
      t.location.column + t.text.length = (before ++ d.text).length) ↔
        ∃ ds, d.closing? = some (.integer ds) := by
  induction d generalizing before with
  | last g => simp [tokens, closing?]
  | next g l d ih =>
    obtain ⟨-, hf, -, hd⟩ := hd
    rw [text, ← List.append_assoc, ← List.append_assoc] at h ⊢
    have hbefore : '\n' ∉ before ++ g := fun hm =>
      h (List.mem_append_left _ (List.mem_append_left _ hm))
    let t := l.token keywords ((Position.reached (before ++ g)).within file)
    have hend : t.location.column + t.text.length = (before ++ g ++ l.text).length := by
      show ((Position.reached (before ++ g)).column : Int) + (String.ofList l.text).length = _
      rw [Position.reached_of_not_mem hbefore, String.length_ofList, ← Int.natCast_add,
        ← List.length_append]
    simp only [tokens, List.mem_cons, exists_eq_or_imp, closing?]
    -- the lexeme ends the line only if nothing is laid out after it
    split
    · next ht =>
      obtain rfl := eq_last_of_text hd ht
      rw [text, List.append_nil, and_iff_left hend, Lexeme.isInteger_token]
      simp [tokens]
    · next ht =>
      have hlater : t.location.column + t.text.length ≠
          (before ++ g ++ l.text ++ d.text).length := by
        have hpos := List.length_pos_iff.2 ht
        have hlen : (before ++ g ++ l.text ++ d.text).length =
          (before ++ g ++ l.text).length + d.text.length := List.length_append
        omega
      rw [← ih hd _ h]
      exact or_iff_right fun ht => hlater ht.2

section Lines

variable {s : Settings} {file? : Option String} {line body : List Char} {d : Layout}

/-- A comment right after an integer is not read as one. -/
theorem Layout.tokenize_ne_ok_of_closing (hv : d.Valid s.toConfiguration) {ds : List Char}
    (hds : d.closing? = some (.integer ds)) (ts : List Token) :
    (tokenize s file? (d.text ++ slash :: slash :: body)).1 ≠ .ok ts := by
  obtain ⟨hn, d', ht, hd'⟩ := exists_of_closing hv hds
  obtain ⟨a, as, rfl⟩ := List.exists_cons_of_ne_nil hn.1
  have hlead : d'.Leads s.toConfiguration (a :: as ++ slash :: slash :: body) :=
    hd'.of_head fun _ => id
  rw [ht, List.append_assoc]
  exact tokenize_ne_ok hlead (Lexer.piece_slashes hn body) file? ts

/-- A plain line with a comment after it tokenizes just when it does so alone and does not end
with an integer. -/
theorem Layout.tokenize_comment_iff (hv : d.Valid s.toConfiguration)
    (hd : d.Plain s.toConfiguration) (hline : '\n' ∉ d.text ++ slash :: slash :: body)
    (ts : List Token) : (tokenize s file? (d.text ++ slash :: slash :: body)).1 = .ok ts ↔
      (tokenize s file? d.text).1 = .ok ts ∧ ¬ ∃ t ∈ ts, t.isInteger ∧
        t.location.column + t.text.length = d.text.length := by
  have htext : '\n' ∉ [] ++ d.text := fun h => hline (List.mem_append_left _ h)
  have hbody : '\n' ∉ body := fun h => hline (List.mem_append_right _ (by simp [h]))
  have hends := exists_ending_iff hd s.keywords (s.fileFor file?) [] htext
  rw [tokenize_text hv file?]
  by_cases hc : ∃ ds, d.closing? = some (.integer ds)
  · obtain ⟨ds, hds⟩ := hc
    apply iff_of_false (tokenize_ne_ok_of_closing hv hds ts)
    rintro ⟨hts, hno⟩
    obtain rfl := Except.ok.inj hts
    exact hno (hends.2 ⟨ds, hds⟩)
  · have hlead := leads_slash hv hd (fun ds h => hc ⟨ds, h⟩) []
    rw [tokenize_comment hlead hbody file?]
    refine ⟨fun hts => ⟨hts, ?_⟩, And.left⟩
    obtain rfl := Except.ok.inj hts
    exact fun h => hc (hends.1 h)

/-- A line tokenizes just when its cut does and no integer is left at the end of it. -/
theorem tokenize_uncommented (hline : '\n' ∉ line) (ts : List Token) :
    (tokenize s file? line).1 = .ok ts ↔
      (tokenize s file? (Text.uncommented line)).1 = .ok ts ∧
        (Text.uncommented line ≠ line → ¬ ∃ t ∈ ts, t.isInteger ∧
          t.location.column + t.text.length = (Text.uncommented line).length) := by
  rcases Text.uncommented_cases line with hcut | ⟨body, hcut⟩
  · rw [hcut]
    exact (and_iff_left fun h => absurd rfl h).symm
  · generalize hb : Text.uncommented line = b at hcut ⊢
    subst hcut
    have hne : b ≠ b ++ slash :: slash :: body := by simp
    rw [iff_true_intro hne, true_imp_iff]
    obtain ⟨d, rest, rfl, hd, rfl | ⟨f, spent, hf⟩⟩ := Layout.exists_leads s b
    · rw [List.append_nil] at hb hline ⊢
      have hv := Layout.valid_iff_leads.2 hd
      exact Layout.tokenize_comment_iff hv (Layout.plain_of_uncommented hv hb) hline ts
    · -- a fault in the cut line is one in the line, where the rest begins alike
      obtain ⟨a, as, rfl⟩ := List.exists_cons_of_ne_nil (show rest ≠ [] by rintro rfl; cases hf)
      rw [List.append_assoc] at hb ⊢
      obtain ⟨g, spent', hg⟩ :=
        Lexer.exists_fault_of_uncommented hf (Text.uncommented_append hb)
      have hlead : d.Leads s.toConfiguration (a :: as ++ slash :: slash :: body) :=
        hd.of_head fun _ => id
      apply iff_of_false (Layout.tokenize_ne_ok hlead hg file? ts)
      exact fun h => Layout.tokenize_ne_ok hd hf file? ts h.1

/-- The tokens of a cut line are all of it but the blanks. -/
theorem flatMap_text_of_uncommented {ts : List Token}
    (h : (tokenize s file? (Text.uncommented line)).1 = .ok ts) :
    ts.flatMap (·.text.toList) = (Text.uncommented line).filter (fun c => !isBlank c) := by
  obtain ⟨d, ⟨hv, ht⟩, rfl⟩ := Layout.exists_of_tokenize h
  obtain ⟨tail, hline⟩ := Text.uncommented_prefix_line line
  have hcut : Text.uncommented (d.text ++ tail) = d.text := by rw [ht, hline]
  have hplain := Layout.plain_of_uncommented hv hcut
  have htexts := Layout.map_tokens (·.text.toList) Lexeme.text s.keywords
    (fun _ _ => String.toList_ofList) (s.fileFor file?) [] d
  rw [← ht, Layout.filter_text hplain, List.flatMap_def, htexts, List.flatMap_def]

theorem line_of_mem_tokens (hline : '\n' ∉ line) {ts : List Token}
    (h : (tokenize s file? line).1 = .ok ts) {t : Token} (ht : t ∈ ts) : t.location.line = 1 := by
  obtain ⟨d, ⟨-, rfl⟩, rfl⟩ := Layout.exists_of_tokenize h
  exact Layout.line_of_mem_tokens hline ht

end Lines

/-! ### A text and its cut lines -/

/-- The token ends where a comment is cut off its line of the text. -/
def Token.EndsAtCut (source : List Char) (t : Token) : Prop :=
  ∃ (i : Nat) (line : List Char), (Text.lines source)[i]? = some line ∧
    Text.uncommented line ≠ line ∧
    t.location.line = i + 1 ∧ t.location.column + t.text.length = (Text.uncommented line).length

theorem Token.endsAtCut_down {source : List Char} {t : Token} (ht : t.location.line = 1) {j : Nat} :
    (t.down j).EndsAtCut source ↔ ∃ line, (Text.lines source)[j]? = some line ∧
      Text.uncommented line ≠ line ∧
      t.location.column + t.text.length = (Text.uncommented line).length := by
  have hrow : (t.down j).location.line = 1 + j := by rw [← ht]; rfl
  constructor
  · rintro ⟨i, line, hi, hcut, hi', hcol⟩
    obtain rfl : i = j := by omega
    exact ⟨line, hi, hcut, hcol⟩
  · rintro ⟨line, hj, hcut, hcol⟩
    exact ⟨j, line, hj, hcut, by omega, hcol⟩

theorem Text.filter_stripped {p : Char → Bool} (hp : p '\n' = false) (source : List Char) :
    (stripped source).filter p = (lines source).flatMap fun l => (uncommented l).filter p := by
  rw [stripped]
  induction lines source with
  | nil => rfl
  | cons l ls ih =>
    cases ls with
    | nil => simp
    | cons m ls =>
      rw [List.map_cons, List.map_cons, List.intercalate_cons_cons, ← List.map_cons,
        List.filter_append, ih]
      simp [hp]

/-- The cut lines of a text that tokenizes come to the same, and to no integer at a cut. -/
theorem tokenize_stripped_of_ok {s : Settings} {file? : Option String} {source : List Char}
    {ts : List Token} (h : (tokenize s file? source).1 = .ok ts) :
    (tokenize s file? (Text.stripped source)).1 = .ok ts ∧
      ∀ t ∈ ts, t.isInteger → ¬ t.EndsAtCut source := by
  obtain ⟨hall, rfl⟩ := tokenize_ok_iff_lines.1 h
  have hno : ∀ l ∈ Text.lines source, '\n' ∉ l := fun l => Text.not_mem_of_mem_split
  have hcut : ∀ l ∈ Text.lines source,
      (tokenize s file? (Text.uncommented l)).1 = .ok (tokensOf s file? l) := fun l hl =>
    ((tokenize_uncommented (hno l hl) _).1 (hall l hl)).1
  have hsame : ∀ l ∈ Text.lines source,
      tokensOf s file? (Text.uncommented l) = tokensOf s file? l := fun l hl =>
    tokensOf_of_ok (hcut l hl)
  constructor
  · rw [tokenize_ok_iff_lines, Text.lines_stripped]
    refine ⟨fun k hk => ?_, inLines_map hsame _ _⟩
    obtain ⟨l, hl, rfl⟩ := List.mem_map.1 hk
    rw [hsame l hl]
    exact hcut l hl
  · intro t ht hint hend
    obtain ⟨j, l, hj, u, hu, rfl⟩ := mem_inLines.1 ht
    have hl := List.mem_of_getElem? hj
    rw [Nat.zero_add] at hend
    have hrow := line_of_mem_tokens (hno l hl) (hall l hl) hu
    obtain ⟨l', hj', hne, hcol⟩ := (Token.endsAtCut_down hrow).1 hend
    obtain rfl : l = l' := Option.some.inj (hj.symm.trans hj')
    have hleft := ((tokenize_uncommented (hno l hl) _).1 (hall l hl)).2 hne
    exact hleft ⟨u, hu, hint, hcol⟩

/-- The comments can be put back where no integer ends. -/
theorem tokenize_of_stripped {s : Settings} {file? : Option String} {source : List Char}
    {ts : List Token} (h : (tokenize s file? (Text.stripped source)).1 = .ok ts)
    (hends : ∀ t ∈ ts, t.isInteger → ¬ t.EndsAtCut source) :
    (tokenize s file? source).1 = .ok ts := by
  rw [tokenize_ok_iff_lines, Text.lines_stripped] at h
  obtain ⟨hall, rfl⟩ := h
  have hno : ∀ l ∈ Text.lines source, '\n' ∉ l := fun l => Text.not_mem_of_mem_split
  have hok : ∀ l ∈ Text.lines source,
      (tokenize s file? l).1 = .ok (tokensOf s file? (Text.uncommented l)) := by
    intro l hl
    have hcut := hall _ (List.mem_map_of_mem hl)
    refine (tokenize_uncommented (hno l hl) _).2 ⟨hcut, ?_⟩
    rintro hne ⟨u, hu, hint, hcol⟩
    obtain ⟨j, hj⟩ := List.getElem?_of_mem hl
    have hj' : ((Text.lines source).map Text.uncommented)[j]? = some (Text.uncommented l) := by
      rw [List.getElem?_map, hj]
      rfl
    have hrow := line_of_mem_tokens
      (fun hm => hno l hl ((Text.uncommented_prefix_line l).subset hm)) hcut hu
    apply hends (u.down (0 + j)) (mem_inLines.2 ⟨j, _, hj', u, hu, rfl⟩) hint
    rw [Nat.zero_add]
    exact (Token.endsAtCut_down hrow).2 ⟨l, hj, hne, hcol⟩
  have hsame : ∀ l ∈ Text.lines source,
      tokensOf s file? (Text.uncommented l) = tokensOf s file? l := fun l hl =>
    (tokensOf_of_ok (hok l hl)).symm
  refine tokenize_ok_iff_lines.2 ⟨fun l hl => ?_, (inLines_map hsame _ _).symm⟩
  rw [← hsame l hl]
  exact hok l hl

/-- A text tokenizes just when it does with the comments cut off its lines and no integer is
left at the end of a line that is cut. Its tokens are the same then, and their texts are all
that is left of it but the blanks. -/
theorem tokenize_stripped (s : Settings) (file? : Option String) (source : List Char) :
    (∀ ts, (tokenize s file? source).1 = .ok ts ↔
      (tokenize s file? (Text.stripped source)).1 = .ok ts ∧
        ∀ t ∈ ts, t.isInteger → ¬ t.EndsAtCut source) ∧
    ∀ ts, (tokenize s file? source).1 = .ok ts →
      ts.flatMap (·.text.toList) = (Text.stripped source).filter (fun c => !isBlank c) := by
  refine ⟨fun ts => ⟨tokenize_stripped_of_ok, fun h => tokenize_of_stripped h.1 h.2⟩, ?_⟩
  intro ts h
  have hstripped := (tokenize_stripped_of_ok h).1
  rw [tokenize_ok_iff_lines, Text.lines_stripped] at hstripped
  obtain ⟨hall, rfl⟩ := hstripped
  have htexts : ∀ l ∈ Text.lines source,
      (tokensOf s file? (Text.uncommented l)).flatMap (·.text.toList) =
        (Text.uncommented l).filter (fun c => !isBlank c) := fun l hl =>
    flatMap_text_of_uncommented (hall _ (List.mem_map_of_mem hl))
  have hdown : ∀ (i : Nat) (t : Token), (t.down i).text.toList = t.text.toList := fun _ _ => rfl
  rw [flatMap_inLines hdown, Text.filter_stripped (by decide), List.flatMap_map]
  rw [List.flatMap_def, List.flatMap_def, List.map_congr_left htexts]

/-- A comment may stand right after a ratio. After an integer it may not, though the integer
is read without it. -/
theorem tokenize_stripped_number :
    (tokenize .standard none ['4', '/', '4', '/', '/', 'x']).1 =
        .ok [⟨.number, .ratio 4 4, "4/4", ⟨"<input>", 1, 0⟩⟩] ∧
      (tokenize .standard none (Text.stripped ['4', '/', '/', 'x'])).1 =
        .ok [⟨.number, .integer 4, "4", ⟨"<input>", 1, 0⟩⟩] ∧
      ¬ ∃ ts, (tokenize .standard none ['4', '/', '/', 'x']).1 = .ok ts := by
  have hratio : (tokenize .standard none (Text.stripped ['4', '/', '4', '/', '/', 'x'])).1 =
      .ok [⟨.number, .ratio 4 4, "4/4", ⟨"<input>", 1, 0⟩⟩] :=
    tokenize_ok_iff.2 (by decide +kernel)
  have hinteger : (tokenize .standard none (Text.stripped ['4', '/', '/', 'x'])).1 =
      .ok [⟨.number, .integer 4, "4", ⟨"<input>", 1, 0⟩⟩] :=
    tokenize_ok_iff.2 (by decide +kernel)
  refine ⟨((tokenize_stripped .standard none _).1 _).2 ⟨hratio, by simp [Token.isInteger,
    Token.isFraction, Value.isRatio]⟩, hinteger, ?_⟩
  rintro ⟨ts, hts⟩
  obtain ⟨hok, hends⟩ := ((tokenize_stripped .standard none _).1 ts).1 hts
  obtain rfl := Except.ok.inj (hinteger.symm.trans hok)
  apply hends _ (List.mem_singleton_self _) rfl
  exact ⟨0, ['4', '/', '/', 'x'], by decide, by decide, rfl, by decide⟩

end BeatNotation
