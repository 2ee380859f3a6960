import BeatNotation.Proofs.Places
import BeatNotation.Proofs.Reading

/-! Texts laid out as lexemes with gaps between them. A text that tokenizes is one that can
be laid out, in a single way, and its tokens are the lexemes at their places. Any other text
is laid out up to a fault, and the lexemes before the fault are delivered. -/

namespace BeatNotation

open Alphabet

/-- Lexemes, each after a gap, and a last gap. -/
inductive Layout
  | last (gap : List Char)
  | next (gap : List Char) (l : Lexeme) (rest : Layout)

namespace Layout

def text : Layout → List Char
  | last g => g
  | next g l d => g ++ (l.text ++ d.text)

/-- Gaps are gaps, and every lexeme is well-formed, short enough and not gone on with. -/
def Valid (x : Configuration) : Layout → Prop
  | last g => Gap g []
  | next g l d => Gap g (l.text ++ d.text) ∧ l.Formed x ∧ l.Short ∧ Stops l.goesOn d.text ∧ d.Valid x

/-- The layout is one of the text. -/
def Divides (x : Configuration) (source : List Char) (d : Layout) : Prop :=
  d.Valid x ∧ d.text = source

/-- The tokens of the lexemes, at the places that the text before each leads to. -/
def tokens (keywords : Vocabulary) (file : String) : List Char → Layout → List Token
  | _, last _ => []
  | before, next g l d =>
    l.token keywords ((Position.reached (before ++ g)).within file) ::
      d.tokens keywords file (before ++ g ++ l.text)

/-- The layout leads up to the rest of a text: it is a valid one of what comes before,
where the rest is seen after its last lexeme or gap. -/
def Leads (x : Configuration) (rest : List Char) : Layout → Prop
  | last g => Gap g rest
  | next g l d => Gap g (l.text ++ (d.text ++ rest)) ∧ l.Formed x ∧ l.Short ∧
      Stops l.goesOn (d.text ++ rest) ∧ d.Leads x rest

theorem valid_iff_leads {x : Configuration} {d : Layout} : d.Valid x ↔ d.Leads x [] := by
  induction d with
  | last g => rfl
  | next g l d ih => simp only [Valid, Leads, List.append_nil, ih]

/-- A layout leads up to any rest that begins as the one it leads up to, or is empty. -/
theorem Leads.of_head {x : Configuration} {rest rest' : List Char} {d : Layout}
    (hd : d.Leads x rest) (h : ∀ c ∈ rest'.head?, c ∈ rest.head?) : d.Leads x rest' := by
  induction d with
  | last g => exact Gap.of_head hd h
  | next g l d ih =>
    obtain ⟨hg, hf, hs, he, hd⟩ := hd
    have ht := head_append_of_head h d.text
    exact ⟨hg.of_head (head_append_of_head ht l.text), hf, hs, he.of_head ht, ih hd⟩

variable {s : Settings} {c : Cursor} {rest : List Char}

/-! ### Reading a layout -/

theorem read_last {g : List Char} (hv : (last g).Valid s.toConfiguration)
    (hc : c.ahead = (last g).text) : (s.lexer.read c).result = .finish := by
  have hc' : c.ahead = g ++ [] := by rw [hc, text, List.append_nil]
  have hp : s.lexer.piece (c.pass g.length).ahead = .finish := by
    rw [Cursor.ahead_pass_length hc']
    rfl
  rw [(Lexer.read_gap hv hc').1, Lexer.read_of_finish hp]

theorem read_leads {g : List Char} {l : Lexeme} {d : Layout}
    (hv : (next g l d).Leads s.toConfiguration rest) (hc : c.ahead = (next g l d).text ++ rest) :
    (s.lexer.read c).result = .token (l.token s.keywords (c.pass g.length).location) ∧
      (s.lexer.read c).state = (c.pass g.length).pass l.text.length := by
  obtain ⟨hg, hf, hs, he, -⟩ := hv
  rw [text, List.append_assoc, List.append_assoc] at hc
  have hp : s.lexer.piece (c.pass g.length).ahead = .lexeme l := by
    rw [Cursor.ahead_pass_length hc, Lexer.piece_lexeme hf hs he]
  obtain ⟨hr, ht⟩ := Lexer.read_gap (s := s) hg hc
  rw [hr, ht, Lexer.read_of_lexeme hp]
  exact ⟨rfl, rfl⟩

theorem read_next {g : List Char} {l : Lexeme} {d : Layout}
    (hv : (next g l d).Valid s.toConfiguration) (hc : c.ahead = (next g l d).text) :
    (s.lexer.read c).result = .token (l.token s.keywords (c.pass g.length).location) ∧
      (s.lexer.read c).state = (c.pass g.length).pass l.text.length :=
  read_leads (valid_iff_leads.1 hv) (by rw [hc, List.append_nil])

/-- A drain delivers the tokens of the layout that it begins with, and then drains the rest. -/
theorem drain_leads {d : Layout} (hd : d.Leads s.toConfiguration rest)
    (hc : c.ahead = d.text ++ rest) :
    let later := (Scanner.mk s.lexer (c.pass d.text.length) none).drain
    (Scanner.mk s.lexer c none).drain.result.2 = later.result.2 ∧
      (Scanner.mk s.lexer c none).drain.state = later.state ∧
      (c.Placed → (Scanner.mk s.lexer c none).drain.result.1 =
        d.tokens s.keywords c.file c.behind.reverse ++ later.result.1) := by
  induction d generalizing c with
  | last g =>
    obtain ⟨hr, ht⟩ := Lexer.read_gap (s := s) hd hc
    obtain ⟨hres, hst⟩ := Scanner.drain_of_read hr ht
    exact ⟨congrArg Prod.snd hres, hst, fun _ => congrArg Prod.fst hres⟩
  | next g l d ih =>
    obtain ⟨hr, ht⟩ := read_leads hd hc
    rw [text, List.append_assoc, List.append_assoc] at hc
    have hl : (c.pass g.length).ahead = l.text ++ (d.text ++ rest) := Cursor.ahead_pass_length hc
    obtain ⟨hfail, hst, htokens⟩ := ih hd.2.2.2.2 (Cursor.ahead_pass_length hl)
    have hpass : c.pass (next g l d).text.length =
        ((c.pass g.length).pass l.text.length).pass d.text.length := by
      rw [text, List.length_append, List.length_append, Cursor.pass_add, Cursor.pass_add]
    rw [Scanner.drain_of_token hr, ht, hpass]
    refine ⟨hfail, hst, fun hp => ?_⟩
    have hlater := htokens ((hp.pass g.length).pass l.text.length)
    simp only [hlater, Cursor.file_pass, tokens, Cursor.location, hp.position_pass_length hc,
      Cursor.behind_pass_length hl, Cursor.behind_pass_length hc, List.cons_append]

/-- A fault after a layout ends the drain. -/
theorem drain_fault {d : Layout} (hd : d.Leads s.toConfiguration rest)
    (hc : c.ahead = d.text ++ rest) {f : Fault} {spent : List Char}
    (hf : s.lexer.piece rest = .fault f spent) :
    let stop := (c.pass d.text.length).pass spent.length
    (Scanner.mk s.lexer c none).drain.result.2 = some (stop.fail f) ∧
      (Scanner.mk s.lexer c none).drain.state = .mk s.lexer stop none ∧
      (c.Placed → (Scanner.mk s.lexer c none).drain.result.1 =
        d.tokens s.keywords c.file c.behind.reverse) := by
  rw [← Cursor.ahead_pass_length hc] at hf
  have hread := Lexer.read_of_fault hf
  have hlater := Scanner.drain_of_failure (congrArg Reply.result hread)
  obtain ⟨hfail, hst, htokens⟩ := drain_leads hd hc
  rw [hlater] at hfail hst htokens
  rw [hread] at hst
  exact ⟨hfail, hst, fun hp => by rw [htokens hp, List.append_nil]⟩

/-- A drain of a text that is laid out delivers the lexemes' tokens. -/
theorem drain_text {d : Layout} (hv : d.Valid s.toConfiguration) (hp : c.Placed)
    (hc : c.ahead = d.text) :
    (Scanner.mk s.lexer c none).drain.result =
      (d.tokens s.keywords c.file c.behind.reverse, none) := by
  have hc' : c.ahead = d.text ++ [] := by rw [hc, List.append_nil]
  have hend : s.lexer.piece (c.pass d.text.length).ahead = .finish := by
    rw [Cursor.ahead_pass_length hc']
    rfl
  have hlater := Scanner.drain_of_finish (congrArg Reply.result (Lexer.read_of_finish hend))
  obtain ⟨hfail, -, htokens⟩ := drain_leads (valid_iff_leads.1 hv) hc'
  rw [hlater] at hfail htokens
  exact Prod.ext ((htokens hp).trans (List.append_nil _)) hfail

/-- Every text begins with a layout, and there is a fault in the rest, if any. -/
theorem exists_leads (s : Settings) (t : List Char) :
    ∃ (d : Layout) (rest : List Char), t = d.text ++ rest ∧ d.Leads s.toConfiguration rest ∧
      (rest = [] ∨ ∃ f spent, s.lexer.piece rest = .fault f spent) := by
  induction hn : t.length using Nat.strongRecOn generalizing t with
  | ind n ih =>
    obtain ⟨g, rest, rfl, hg, hr⟩ := Lexer.exists_gap s t
    have hh := Lexer.heads_piece s rest
    cases hp : s.lexer.piece rest with
    | blank b => simp [hp, Piece.isGap] at hr
    | comment b => simp [hp, Piece.isGap] at hr
    | lexeme l =>
      rw [hp] at hh
      obtain ⟨hf, hs, u, rfl, he⟩ := hh
      have hlt : u.length < n := by
        have := List.length_pos_iff.2 (Lexeme.text_ne_nil hf)
        rw [← hn, List.length_append, List.length_append]
        omega
      obtain ⟨d, v, rfl, hd, hv⟩ := ih _ hlt u rfl
      refine ⟨next g l d, v, ?_, ⟨hg, hf, hs, he, hd⟩, hv⟩
      rw [text, List.append_assoc, List.append_assoc]
    | fault f spent => exact ⟨last g, rest, rfl, hg, .inr ⟨f, spent, hp⟩⟩
    | finish =>
      rw [hp] at hh
      exact ⟨last g, rest, rfl, hg, .inl hh⟩

/-- A text that drains without a failure can be laid out. -/
theorem exists_of_drain (h : (Scanner.mk s.lexer c none).drain.result.2 = none) :
    ∃ d : Layout, d.Divides s.toConfiguration c.ahead := by
  obtain ⟨d, rest, hc, hd, rfl | ⟨f, spent, hf⟩⟩ := exists_leads s c.ahead
  · exact ⟨d, valid_iff_leads.2 hd, by rw [hc, List.append_nil]⟩
  · rw [(drain_fault hd hc hf).1] at h
    cases h

theorem tokenize_text {d : Layout} (hv : d.Valid s.toConfiguration) (file? : Option String) :
    (tokenize s file? d.text).1 =
      .ok (d.tokens s.keywords (s.fileFor file?) []) :=
  tokenize_ok_iff.2 (drain_text hv (Cursor.placed_start _ _) rfl)

/-- A layout and one of the rest make up the tokens of both. -/
theorem tokenize_append {d e : Layout} (hd : d.Leads s.toConfiguration e.text)
    (he : e.Valid s.toConfiguration) (file? : Option String) :
    (tokenize s file? (d.text ++ e.text)).1 =
      .ok (d.tokens s.keywords (s.fileFor file?) [] ++
        e.tokens s.keywords (s.fileFor file?) d.text) := by
  let c := Cursor.start (s.fileFor file?) (d.text ++ e.text)
  have hc : c.ahead = d.text ++ e.text := rfl
  have hp : c.Placed := Cursor.placed_start _ _
  obtain ⟨hfail, -, htokens⟩ := drain_leads hd hc
  have hrest := drain_text he (hp.pass d.text.length) (Cursor.ahead_pass_length hc)
  rw [hrest] at hfail htokens
  rw [Cursor.behind_pass_length hc, Cursor.file_pass] at htokens
  exact tokenize_ok_iff.2 (Prod.ext (htokens hp) hfail)

/-- What is laid out before a rest tokenizes without it. -/
theorem tokenize_before {d : Layout} (hd : d.Leads s.toConfiguration rest)
    (file? : Option String) : (tokenize s file? d.text).1 =
      .ok (d.tokens s.keywords (s.fileFor file?) []) :=
  tokenize_text (valid_iff_leads.2 (hd.of_head (by simp))) file?

/-- A comment is passed over where a slash does not go on with what comes before it. -/
theorem tokenize_comment {d : Layout} (hd : d.Leads s.toConfiguration (slash :: rest))
    {body : List Char} (hbody : '\n' ∉ body) (file? : Option String) :
    (tokenize s file? (d.text ++ slash :: slash :: body)).1 =
      .ok (d.tokens s.keywords (s.fileFor file?) []) := by
  have hcomment : (last (slash :: slash :: body)).Valid s.toConfiguration := by
    have hgap : Gap (slash :: slash :: body ++ []) [] := .comment hbody (stops_nil _) .nil
    rwa [List.append_nil] at hgap
  have hlead : d.Leads s.toConfiguration (last (slash :: slash :: body)).text :=
    hd.of_head fun _ => id
  have hok := tokenize_append hlead hcomment file?
  rwa [tokens, List.append_nil] at hok

/-- A text with a fault after a layout does not tokenize. -/
theorem tokenize_ne_ok {d : Layout} (hd : d.Leads s.toConfiguration rest) {f : Fault}
    {spent : List Char} (hf : s.lexer.piece rest = .fault f spent) (file? : Option String)
    (ts : List Token) : (tokenize s file? (d.text ++ rest)).1 ≠ .ok ts := by
  intro h
  have hnone := congrArg Prod.snd (tokenize_ok_iff.1 h)
  cases (drain_fault hd rfl hf).1.symm.trans hnone

theorem exists_of_tokenize {file? : Option String} {source : List Char} {ts : List Token}
    (h : (tokenize s file? source).1 = .ok ts) : ∃ d : Layout, d.Divides s.toConfiguration source ∧
      d.tokens s.keywords (s.fileFor file?) [] = ts := by
  obtain ⟨d, hv, rfl⟩ := exists_of_drain (s := s) (congrArg Prod.snd (tokenize_ok_iff.1 h))
  exact ⟨d, ⟨hv, rfl⟩, Except.ok.inj ((tokenize_text hv file?).symm.trans h)⟩

/-- A text has at most one layout. -/
theorem eq_of_text_eq {d d' : Layout} (hd : d.Valid s.toConfiguration)
    (hd' : d'.Valid s.toConfiguration) (ht : d.text = d'.text) : d = d' := by
  induction d generalizing d' with
  | last g =>
    cases d' with
    | last g' => rw [show g = g' from ht]
    | next g' l' d' =>
      have hr := read_last (c := .start "" (last g).text) hd rfl
      have hr' := read_next (c := .start "" (last g).text) hd' ht
      rw [hr] at hr'
      cases hr'.1
  | next g l d ih =>
    cases d' with
    | last g' =>
      have hr := read_next (c := .start "" (next g l d).text) hd rfl
      have hr' := read_last (c := .start "" (next g l d).text) hd' ht
      rw [hr'] at hr
      cases hr.1
    | next g' l' d' =>
      obtain ⟨hr, hs⟩ := read_next (c := .start "" (next g l d).text) hd rfl
      obtain ⟨hr', hs'⟩ := read_next (c := .start "" (next g l d).text) hd' ht
      have htoken := Outcome.token.inj (hr.symm.trans hr')
      have hl : l.text = l'.text := String.ofList_injective (congrArg Token.text htoken)
      have hrest : d.text = d'.text := by
        have ha := congrArg Cursor.ahead (hs.symm.trans hs')
        have hstart : (Cursor.start "" (next g l d).text).ahead = (next g' l' d').text := ht
        rwa [Cursor.ahead_pass_length (Cursor.ahead_pass_length rfl),
          Cursor.ahead_pass_length (Cursor.ahead_pass_length hstart)] at ha
      have hg : g = g' := by
        rw [text, text, hl, hrest] at ht
        exact List.append_cancel_right ht
      have hll : l = l' := by
        have hp := Lexer.piece_lexeme hd.2.1 hd.2.2.1 hd.2.2.2.1
        rw [hl, hrest, Lexer.piece_lexeme hd'.2.1 hd'.2.2.1 hd'.2.2.2.1] at hp
        exact (Piece.lexeme.inj hp).symm
      rw [hg, hll, ih hd.2.2.2.2 hd'.2.2.2.2 hrest]

end Layout

/-- A text tokenizes just when it can be laid out, its layout is then the only one, and the
tokens are the lexemes of the layout at their places. -/
theorem tokenize_ok_iff_layout (s : Settings) (file? : Option String) (source : List Char) :
    (∀ d d' : Layout, d.Divides s.toConfiguration source → d'.Divides s.toConfiguration source →
      d = d') ∧
    ∀ ts, (tokenize s file? source).1 = .ok ts ↔
      ∃ d : Layout, d.Divides s.toConfiguration source ∧
        d.tokens s.keywords (s.fileFor file?) [] = ts := by
  have hdrain : ∀ d : Layout, d.Divides s.toConfiguration source →
      (Scanner.start s.lexer file? source).drain.result =
        (d.tokens s.keywords (s.fileFor file?) [], none) := by
    rintro d ⟨hv, rfl⟩
    exact Layout.drain_text hv (Cursor.placed_start _ _) rfl
  constructor
  · rintro d d' ⟨hd, ht⟩ ⟨hd', ht'⟩
    exact Layout.eq_of_text_eq hd hd' (ht.trans ht'.symm)
  · intro ts
    rw [tokenize_ok_iff]
    constructor
    · intro h
      obtain ⟨d, hd⟩ := Layout.exists_of_drain (s := s) (congrArg Prod.snd h)
      exact ⟨d, hd, congrArg Prod.fst ((hdrain d hd).symm.trans h)⟩
    · rintro ⟨d, hd, rfl⟩
      exact hdrain d hd

end BeatNotation
